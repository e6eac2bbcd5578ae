import DocumentSchema.Codec.Error
import DocumentSchema.Floating.Rounding
import DocumentSchema.Schema.Basic

/-!
# Admission of values

What a field of a kind accepts, whichever form it is stored in: finite numbers among its literals,
integers that 128 bits hold, anything that denotes an instant, places that an index can hold, and
vectors of the right length.
-/

set_option autoImplicit false

namespace DocumentSchema

namespace Floating

variable {f : Format}

/-- The 128-bit integer next to a number on the side of zero, or the limit that the number is
beyond; zero if it is no number. -/
def clampInt128 : Floating f → Int128
  | .finite x => Int128.clamp x.trunc
  | .infinite negative => if negative then Int128.least else Int128.greatest
  | .nan _ => Int128.clamp 0

/-- The 128-bit integer that a number is, if it is one. In double precision the greatest of these
integers becomes the power of two above it, so this limit is excluded. -/
def toInt128? (x : Floating f) : Option Int128 :=
  if x.isFinite && x.fract.equal zero && (ofInt f Int128.least.val).le x &&
      x.lt (ofInt f Int128.greatest.val) then some x.clampInt128
  else none

end Floating

/-- The value of a field in a document: its own, or the default where it has none. -/
def effective (doc : Document) (name : String) (default : Option Value) : Option Value :=
  match doc.get? name with
  | some v => some v
  | none => default

namespace Admission

def number (path : String) (literals : Option (List Binary64)) :
    Value → Except EncodeError Finite64
  | .number x =>
    match x.toFinite? with
    | none => .error (.nonFiniteNumber path)
    | some y =>
      if admits Floating.equal literals x then .ok y
      else .error (.literalViolation path x.text)
  | v => .error (.typeMismatch path (.scalar .number) v.name)

/-- An integer among the literals; a number with an integer value is one. -/
def bigInt (path : String) (literals : Option (List Int128)) (v : Value) :
    Except EncodeError Int128 :=
  let found := match v with
    | .bigInt i => some i
    | .number x => x.toInt128?
    | _ => none
  match found with
  | none => .error (.typeMismatch path (.scalar .bigInt) v.name)
  | some i =>
    if admits (fun a b => a = b) literals i then .ok i
    else .error (.literalViolation path i.text)

def boolean (path : String) : Value → Except EncodeError Bool
  | .bool b => .ok b
  | v => .error (.typeMismatch path (.scalar .boolean) v.name)

def date (path : String) (v : Value) : Except EncodeError Instant :=
  match v.toInstant? with
  | some t => .ok t
  | none => .error (.typeMismatch path (.scalar .date) v.name)

def point (path : String) : Value → Except EncodeError Coordinates
  | .point p => if p.isValid then .ok p else .error (.pointOutOfRange path p)
  | v => .error (.typeMismatch path (.scalar .point) v.name)

def items (path : String) (expected : KindName) : Value → Except EncodeError (List Value)
  | .array vs => .ok vs
  | v => .error (.typeMismatch path expected v.name)

/-- Finite numbers, as many as a vector has components. -/
def vector (path : String) (dimension : UInt32) (v : Value) :
    Except EncodeError (List Finite64) := do
  let vs ← items path .vector v
  if vs.length ≠ dimension.toNat then .error (.tupleLength path dimension.toNat vs.length)
  else vs.mapM (number path none)

end Admission

end DocumentSchema
