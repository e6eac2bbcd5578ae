import DocumentSchema.Coordinates
import DocumentSchema.Entries
import DocumentSchema.Time.Rfc3339

/-!
# Values and documents

A document is what an application hands to a model and gets back: entries whose values are scalars,
arrays or further documents. `Value.same` is the equality an application sees: numbers compare as
numbers, so a NaN differs from itself and the two zeros agree.
-/

set_option autoImplicit false

namespace DocumentSchema

/-- A value of a document. -/
inductive Value where
  | null
  | bool (b : Bool)
  | number (x : Binary64)
  | bigInt (i : Int128)
  | string (s : String)
  | date (t : Instant)
  | point (p : Coordinates)
  | array (items : List Value)
  | object (members : List (String × Value))
deriving Inhabited

/-- A document: values by field name. -/
abbrev Document := Entries Value

/-- What a value is, by name. -/
inductive ValueName where
  | null
  | boolean
  | number
  | bigInt
  | string
  | date
  | point
  | array
  | object
deriving DecidableEq

def ValueName.label : ValueName → String
  | .null => "null"
  | .boolean => "boolean"
  | .number => "number"
  | .bigInt => "bigint"
  | .string => "string"
  | .date => "date"
  | .point => "point"
  | .array => "array"
  | .object => "object"

namespace Value

def name : Value → ValueName
  | .null => .null
  | .bool _ => .boolean
  | .number _ => .number
  | .bigInt _ => .bigInt
  | .string _ => .string
  | .date _ => .date
  | .point _ => .point
  | .array _ => .array
  | .object _ => .object

def isNull : Value → Bool
  | .null => true
  | _ => false

def toText? : Value → Option String
  | .string s => some s
  | _ => none

def toBinary? : Value → Option Binary64
  | .number x => some x
  | _ => none

/-- The instant that a value denotes: a date itself, a number of milliseconds rounded to a whole
one, or a text of date and time. -/
def toInstant? : Value → Option Instant
  | .date t => some t
  | .number x => x.toFinite?.bind fun x => Instant.ofMillis? x.nearestInt
  | .string s => Instant.read? s
  | _ => none

/-- The milliseconds of the instant that a value denotes. -/
def toMillis? (v : Value) : Option Int := v.toInstant?.map Instant.millis

def boolText (b : Bool) : String := if b then "true" else "false"

def plainText? : Value → Option String
  | .string s => some s
  | .number x => some x.token
  | .bigInt i => some i.text
  | .bool b => some (boolText b)
  | .date t => some t.text
  | .point p => some p.text
  | .null => none
  | .array _ => none
  | .object _ => none

mutual

/-- Equality of values, with numbers compared as numbers. -/
def same : Value → Value → Bool
  | .null, .null => true
  | .bool a, .bool b => a = b
  | .number x, .number y => x.equal y
  | .bigInt i, .bigInt j => i = j
  | .string s, .string t => s = t
  | .date t, .date u => t = u
  | .point p, .point q => p.same q
  | .array xs, .array ys => sameItems xs ys
  | .object xs, .object ys => sameMembers xs ys
  | _, _ => false
termination_by structural v => v

def sameItems : List Value → List Value → Bool
  | [], [] => true
  | x :: xs, y :: ys => x.same y && sameItems xs ys
  | _, _ => false
termination_by structural xs => xs

def sameMembers : List (String × Value) → List (String × Value) → Bool
  | [], [] => true
  | (k, x) :: xs, (l, y) :: ys => k = l && x.same y && sameMembers xs ys
  | _, _ => false
termination_by structural xs => xs

end

end Value

end DocumentSchema
