import DocumentSchema.Codec.Admission
import DocumentSchema.Value.Json

/-!
# Documents as JSON trees

A tree keeps the structure of a document. Dates are milliseconds, and points and big integers are
texts. An explicit null is kept where it stands; a field that is left out stays out unless it has a
default. Reading fills in a null for every field that is missing, and refuses a null inside an
array.
-/

set_option autoImplicit false

namespace DocumentSchema

namespace Tree

/-- The path of a name below another path; the root has the empty path. -/
def below (path name : String) : String := if path.isEmpty then name else path ++ "." ++ name

def itemPath (path : String) (index : Nat) : String := below path (Decimal.natText index)

def encodeText (path : String) (v : Value) : Except EncodeError Json :=
  match v with
  | .string _ => .ok v.toJson
  | .number _ => .ok v.toJson
  | .bool _ => .ok v.toJson
  | .bigInt _ => .ok v.toJson
  | _ => .error (.typeMismatch path (.scalar .string) v.name)

def numberTree (x : Finite64) : Json := .number (.float x)

/-- The tree of a scalar with the literals it may have. -/
def encodeScalar (path : String) (kind : Scalar) (v : Value) : Except EncodeError Json :=
  if v.isNull then .ok .null
  else
    match kind with
    | .string => encodeText path v
    | .text => encodeText path v
    | .number => (Admission.number path none v).map numberTree
    | .bigInt => (Admission.bigInt path none v).map fun i => .string i.text
    | .boolean => (Admission.boolean path v).map .bool
    | .date => (Admission.date path v).map .ofInstant
    | .point => (Admission.point path v).map fun p => .string p.text

def encodeItems (path : String) (write : String → Value → Except EncodeError Json) :
    (index : Nat) → List Value → Except EncodeError (List Json)
  | _, [] => .ok []
  | index, v :: rest => do
    let json ← write (itemPath path index) v
    let jsons ← encodeItems path write (index + 1) rest
    return json :: jsons

/-- The members of an object: those of its fields, and what no field describes unless skipped. -/
def encodeMembers (fields : Entries Field) (skip : String → Bool)
    (write : Document → Except EncodeError (Entries Json)) (doc : Document) :
    Except EncodeError (Entries Json) := do
  let described ← write doc
  let others := (undescribed fields doc).filter fun e => !skip e.1
  return Entries.insertAll described (Value.membersToJson others)

def skipNone : String → Bool := fun _ => false

def encodeObject (path : String) (fields : Entries Field)
    (write : Document → Except EncodeError (Entries Json)) (v : Value) : Except EncodeError Json :=
  match v with
  | .object doc => (encodeMembers fields skipNone write doc).map .object
  | v => .error (.typeMismatch path .object v.name)

mutual

def encodeKind (path : String) : Kind → Value → Except EncodeError Json
  | kind, v =>
    if v.isNull then .ok .null
    else
      match kind with
      | .string _ _ => encodeText path v
      | .text _ _ => encodeText path v
      | .number literals => (Admission.number path literals v).map numberTree
      | .bigInt literals => (Admission.bigInt path literals v).map fun i => .string i.text
      | .boolean => (Admission.boolean path v).map .bool
      | .date => (Admission.date path v).map .ofInstant
      | .point => (Admission.point path v).map fun p => .string p.text
      | .vector options => do
        let xs ← Admission.vector path options.dimension v
        return .array (xs.map numberTree)
      | .array element _ => do
        let vs ← Admission.items path .array v
        let jsons ← encodeItems path (fun path v => encodeElement path element v) 0 vs
        return .array jsons
      | .tuple positions => do
        let vs ← Admission.items path .tuple v
        if vs.length ≠ positions.length then
          .error (.tupleLength path positions.length vs.length)
        else do
          let jsons ← encodePositions path 0 positions vs
          return .array jsons
      | .object fields =>
        encodeObject path fields (fun doc => encodeFields path fields doc) v
termination_by structural k => k

def encodeElement (path : String) : Element → Value → Except EncodeError Json
  | .scalar kind, v => encodeScalar path kind v
  | .object fields, v =>
    if v.isNull then .ok .null
    else encodeObject path fields (fun doc => encodeFields path fields doc) v
termination_by structural e => e

def encodePositions (path : String) (index : Nat) :
    List Element → List Value → Except EncodeError (List Json)
  | element :: elements, v :: vs => do
    let json ← encodeElement (itemPath path index) element v
    let jsons ← encodePositions path (index + 1) elements vs
    return json :: jsons
  | _, _ => .ok []
termination_by structural es => es

/-- The trees of the fields that a document has or has defaults for. -/
def encodeFields (path : String) :
    List (String × Field) → Document → Except EncodeError (Entries Json)
  | [], _ => .ok []
  | (name, .mk kind _ _ _ default) :: rest, doc =>
    match effective doc name default with
    | none => encodeFields path rest doc
    | some v => do
      let json ← encodeKind (below path name) kind v
      let jsons ← encodeFields path rest doc
      return (name, json) :: jsons
termination_by structural fs => fs

end

/-- Reads a text; a number or a truth value stands for its text. -/
def decodeText (path : String) (json : Json) : Except DecodeError Value :=
  match json with
  | .string s => .ok (.string s)
  | .number n => .ok (.string n.text)
  | .bool b => .ok (.string (Value.boolText b))
  | _ => .error (.typeMismatch path (.kind (.scalar .string)) json.text)

def decodeNumber (path : String) (json : Json) : Except DecodeError Value :=
  match json.toBinary? with
  | some x => .ok (.number x)
  | none => .error (.invalidNumber path json.text)

/-- Reads an integer, or the text of one with blanks around it. -/
def decodeBigInt (path : String) (json : Json) : Except DecodeError Value :=
  match json.toInt128? with
  | some i => .ok (.bigInt i)
  | none => .error (.invalidBigInt path json.text)

def decodeBoolean (path : String) (json : Json) : Except DecodeError Value :=
  match json.toBool? with
  | some b => .ok (.bool b)
  | none => .error (.invalidBoolean path json.text)

/-- The instant of a number of milliseconds, to the nearest one. -/
def instantOfMillis? (millis : Binary64) : Option Instant :=
  millis.toFinite?.bind fun x => Instant.ofMillis? x.nearestInt

def decodeDate (path : String) (json : Json) : Except DecodeError Value :=
  match json.toBinary?.bind instantOfMillis? with
  | some t => .ok (.date t)
  | none => .error (.invalidDate path json.text)

def decodePoint (path : String) (json : Json) : Except DecodeError Value :=
  match json.toText?.bind Coordinates.read? with
  | some p => .ok (.point p)
  | none => .error (.invalidPoint path json.text)

def decodeScalar (path : String) (kind : Scalar) (json : Json) : Except DecodeError Value :=
  if json.isNull then .ok .null
  else
    match kind with
    | .string => decodeText path json
    | .text => decodeText path json
    | .number => decodeNumber path json
    | .bigInt => decodeBigInt path json
    | .boolean => decodeBoolean path json
    | .date => decodeDate path json
    | .point => decodePoint path json

def nonNullItems (path : String) (expected : KindName) (json : Json) :
    Except DecodeError (List Json) :=
  match json with
  | .array items =>
    match items.findIdx? Json.isNull with
    | some index => .error (.nullInArray path index)
    | none => .ok items
  | _ => .error (.typeMismatch path (.kind expected) json.text)

def decodeItems (path : String) (read : String → Json → Except DecodeError Value) :
    (index : Nat) → List Json → Except DecodeError (List Value)
  | _, [] => .ok []
  | index, json :: rest => do
    let v ← read (itemPath path index) json
    let vs ← decodeItems path read (index + 1) rest
    return v :: vs

/-- Reads the members of an object: its fields, and what no field describes unless skipped. -/
def decodeMembers (fields : Entries Field) (skip : String → Bool)
    (read : Entries Json → Except DecodeError Document) (members : Entries Json) :
    Except DecodeError Document := do
  let described ← read members
  let others := (undescribed fields members).filter fun e => !skip e.1
  return Entries.insertAll described (Value.membersOfJson others)

def decodeObject (path : String) (fields : Entries Field)
    (read : Entries Json → Except DecodeError Document) (json : Json) : Except DecodeError Value :=
  match json with
  | .object members => (decodeMembers fields skipNone read members).map .object
  | _ => .error (.typeMismatch path (.kind .object) json.text)

mutual

def decodeKind (path : String) : Kind → Json → Except DecodeError Value
  | kind, json =>
    if json.isNull then .ok .null
    else
      match kind with
      | .string _ _ => decodeText path json
      | .text _ _ => decodeText path json
      | .number _ => decodeNumber path json
      | .bigInt _ => decodeBigInt path json
      | .boolean => decodeBoolean path json
      | .date => decodeDate path json
      | .point => decodePoint path json
      | .vector _ => do
        let items ← nonNullItems path .vector json
        let vs ← items.mapM (decodeNumber path)
        return .array vs
      | .array element _ => do
        let items ← nonNullItems path .array json
        let vs ← decodeItems path (fun path json => decodeElement path element json) 0 items
        return .array vs
      | .tuple positions =>
        match json with
        | .array items =>
          if items.length ≠ positions.length then
            .error (.typeMismatch path .tupleOfDeclaredLength json.text)
          else do
            let vs ← decodePositions path 0 positions items
            return .array vs
        | _ => .error (.typeMismatch path (.kind .tuple) json.text)
      | .object fields =>
        decodeObject path fields (fun members => decodeFields path fields members) json
termination_by structural k => k

def decodeElement (path : String) : Element → Json → Except DecodeError Value
  | .scalar kind, json => decodeScalar path kind json
  | .object fields, json =>
    decodeObject path fields (fun members => decodeFields path fields members) json
termination_by structural e => e

def decodePositions (path : String) (index : Nat) :
    List Element → List Json → Except DecodeError (List Value)
  | element :: elements, json :: rest => do
    let v ← decodeElement (itemPath path index) element json
    let vs ← decodePositions path (index + 1) elements rest
    return v :: vs
  | _, _ => .ok []
termination_by structural es => es

/-- Reads every field; one that the object does not have is null. -/
def decodeFields (path : String) :
    List (String × Field) → Entries Json → Except DecodeError Document
  | [], _ => .ok []
  | (name, .mk kind _ _ _ _) :: rest, members => do
    let v ←
      match members.get? name with
      | none => pure Value.null
      | some json => decodeKind (below path name) kind json
    let vs ← decodeFields path rest members
    return (name, v) :: vs
termination_by structural fs => fs

end

end Tree

/-- The tree of a document: its fields, and what no field describes except links. -/
def Schema.encodeTree (schema : Schema) (doc : Document) : Except EncodeError Json :=
  (Tree.encodeMembers schema.fields schema.isLink (Tree.encodeFields "" schema.fields) doc).map
    .object

/-- The document of a tree: every field, and what no field describes except links. -/
def Schema.decodeTree (schema : Schema) (json : Json) : Except DecodeError Document :=
  match json with
  | .object members =>
    Tree.decodeMembers schema.fields schema.isLink (Tree.decodeFields "" schema.fields) members
  | _ => .error (.notAnObject json.text)

end DocumentSchema
