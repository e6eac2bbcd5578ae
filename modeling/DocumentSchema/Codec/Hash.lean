import DocumentSchema.Codec.Admission

/-!
# Documents as hashes

A hash maps texts to texts. Every scalar has a text: truth values are `1` and `0`, dates are seconds
with a fraction, points two numbers with a comma. An array is the texts of its elements with the
field's separator between them, and the empty text is the empty array, so no element may be empty or
hold the separator. A null is left out. Objects, tuples and arrays of objects have no place here.
-/

set_option autoImplicit false

namespace DocumentSchema

namespace Hash

def boolText (b : Bool) : String := if b then "1" else "0"

def secondsText (millis : Int) : String :=
  ((Floating.ofInt .binary64 millis).divNat 1000 (by decide)).token

def numberText (x : Finite64) : String := Floating.token (.finite x)

def plainText (path : String) (v : Value) : Except EncodeError String :=
  match v with
  | .string s => .ok s
  | .number x => .ok x.token
  | .bigInt i => .ok i.text
  | .bool b => .ok (Value.boolText b)
  | _ => .error (.typeMismatch path (.scalar .string) v.name)

def scalarText (path : String) (kind : Scalar) (v : Value) : Except EncodeError String :=
  match kind with
  | .string => plainText path v
  | .text => plainText path v
  | .number => (Admission.number path none v).map numberText
  | .bigInt => (Admission.bigInt path none v).map Int128.text
  | .boolean => (Admission.boolean path v).map boolText
  | .date => (Admission.date path v).map fun t => secondsText t.millis
  | .point => (Admission.point path v).map Coordinates.text

/-- The text of an element of an array with its index: not null, not empty, without separator. -/
def elementText (path : String) (kind : Scalar) (separator : Char) (index : Nat) (v : Value) :
    Except EncodeError String :=
  if v.isNull then .error (.nullElement path index)
  else do
    let text ← scalarText path kind v
    if text.isEmpty then .error (.emptyElement path index)
    else if separator ∈ text.toList then .error (.separatorInValue path text separator)
    else return text

/-- The texts of the elements of an array from an index on. -/
def elementTexts (path : String) (kind : Scalar) (separator : Char) :
    (index : Nat) → List Value → Except EncodeError (List String)
  | _, [] => .ok []
  | index, v :: rest => do
    let text ← elementText path kind separator index v
    let texts ← elementTexts path kind separator (index + 1) rest
    return text :: texts

def vectorSeparator : Char := ','

def kindText (path : String) (kind : Kind) (v : Value) : Except EncodeError String :=
  match kind with
  | .string _ _ => plainText path v
  | .text _ _ => plainText path v
  | .number literals => (Admission.number path literals v).map numberText
  | .bigInt literals => (Admission.bigInt path literals v).map Int128.text
  | .boolean => (Admission.boolean path v).map boolText
  | .date => (Admission.date path v).map fun t => secondsText t.millis
  | .point => (Admission.point path v).map Coordinates.text
  | .vector options => do
    let xs ← Admission.vector path options.dimension v
    return Text.joined vectorSeparator (xs.map numberText)
  | .array (.scalar kind) separator => do
    let vs ← Admission.items path .array v
    let texts ← elementTexts path kind separator 0 vs
    return Text.joined separator texts
  | .array (.object _) _ => .error (.nestingUnsupported path)
  | .tuple _ => .error (.nestingUnsupported path)
  | .object _ => .error (.nestingUnsupported path)

def encodeKind (path : String) (kind : Kind) (v : Value) : Except EncodeError (Option String) :=
  if v.isNull then .ok none else (kindText path kind v).map some

/-- The texts of the fields that a document has or has defaults for. -/
def encodeFields (doc : Document) : Entries Field → Except EncodeError (Entries String)
  | [] => .ok []
  | (name, field) :: rest => do
    let text ←
      match effective doc name field.default with
      | none => pure none
      | some v => encodeKind name field.kind v
    let texts ← encodeFields doc rest
    return match text with
      | none => texts
      | some text => (name, text) :: texts

/-- The text of a value that no field describes, unless it is null. -/
def undescribedText (name : String) : Value → Except EncodeError (Option String)
  | .null => .ok none
  | .array _ => .error (.nestingUnsupported name)
  | .object _ => .error (.nestingUnsupported name)
  | .bool b => .ok (some (boolText b))
  | v => .ok v.plainText?

def encodeUndescribed : Document → Except EncodeError (Entries String)
  | [] => .ok []
  | (name, v) :: rest => do
    let text ← undescribedText name v
    let texts ← encodeUndescribed rest
    return match text with
      | none => texts
      | some text => (name, text) :: texts

def readNumber (path raw : String) : Except DecodeError Finite64 :=
  match (Floating.readChars? .binary64 (Text.trimmed raw)).bind Floating.toFinite? with
  | some x => .ok x
  | none => .error (.invalidNumber path raw)

def readBigInt (path raw : String) : Except DecodeError Int128 :=
  match (Decimal.readSigned? (Text.trimmed raw)).bind Int128.ofInt? with
  | some i => .ok i
  | none => .error (.invalidBigInt path raw)

def readBoolean (path raw : String) : Except DecodeError Bool :=
  if raw = "1" then .ok true
  else if raw = "0" then .ok false
  else .error (.invalidBoolean path raw)

/-- The instant a number of seconds after the start of 1970, to the nearest millisecond. -/
def instantOfSeconds? (seconds : Binary64) : Option Instant :=
  (seconds.mulNat 1000).toFinite?.bind fun millis => Instant.ofMillis? millis.nearestInt

def readDate (path raw : String) : Except DecodeError Instant :=
  match (Floating.readChars? .binary64 (Text.trimmed raw)).bind instantOfSeconds? with
  | some t => .ok t
  | none => .error (.invalidDate path raw)

def readPoint (path raw : String) : Except DecodeError Coordinates :=
  match Coordinates.read? raw with
  | some p => .ok p
  | none => .error (.invalidPoint path raw)

def readScalar (path : String) (kind : Scalar) (raw : String) : Except DecodeError Value :=
  match kind with
  | .string => .ok (.string raw)
  | .text => .ok (.string raw)
  | .number => (readNumber path raw).map fun x => .number (.finite x)
  | .bigInt => (readBigInt path raw).map .bigInt
  | .boolean => (readBoolean path raw).map .bool
  | .date => (readDate path raw).map .date
  | .point => (readPoint path raw).map .point

/-- The pieces of a joined text; the empty text has none. -/
def pieces (separator : Char) (raw : String) : List String :=
  if raw.isEmpty then [] else Text.split separator raw

def readKind (path : String) (kind : Kind) (raw : String) : Except DecodeError Value :=
  match kind with
  | .string _ _ => .ok (.string raw)
  | .text _ _ => .ok (.string raw)
  | .number _ => (readNumber path raw).map fun x => .number (.finite x)
  | .bigInt _ => (readBigInt path raw).map .bigInt
  | .boolean => (readBoolean path raw).map .bool
  | .date => (readDate path raw).map .date
  | .point => (readPoint path raw).map .point
  | .vector _ => do
    let xs ← (pieces vectorSeparator raw).mapM (readNumber path)
    return .array (xs.map fun x => .number (.finite x))
  | .array (.scalar kind) separator => do
    let vs ← (pieces separator raw).mapM (readScalar path kind)
    return .array vs
  | .array (.object _) _ => .error (.nestingUnsupported path)
  | .tuple _ => .error (.nestingUnsupported path)
  | .object _ => .error (.nestingUnsupported path)

/-- Reads every field; one that the hash does not have is null. -/
def decodeFields (hash : Entries String) : Entries Field → Except DecodeError Document
  | [] => .ok []
  | (name, field) :: rest => do
    let v ←
      match hash.get? name with
      | none => pure Value.null
      | some raw => readKind name field.kind raw
    let vs ← decodeFields hash rest
    return (name, v) :: vs

end Hash

/-- The hash of a document: its fields, and what no field describes except links. -/
def Schema.encodeHash (schema : Schema) (doc : Document) : Except EncodeError (Entries String) := do
  let described ← Hash.encodeFields doc schema.fields
  let others := (undescribed schema.fields doc).filter fun e => !schema.isLink e.1
  let more ← Hash.encodeUndescribed others
  return Entries.insertAll described more

/-- The document of a hash: every field, and what no field describes as texts. -/
def Schema.decodeHash (schema : Schema) (hash : Entries String) : Except DecodeError Document := do
  let described ← Hash.decodeFields hash schema.fields
  return Entries.insertAll described ((undescribed schema.fields hash).mapValues Value.string)

end DocumentSchema
