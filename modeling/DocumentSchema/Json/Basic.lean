import DocumentSchema.Entries
import DocumentSchema.Floating.Text
import DocumentSchema.Text.Blank

/-!
# JSON trees

A number of a JSON tree is an integer or a finite double-precision number, as its text says: `1` and
`1.0` are different trees. The members of an object are entries in key order.
-/

set_option autoImplicit false

namespace DocumentSchema

namespace Json

/-- A number: an integer that 64 bits hold, signed or not, or a floating-point number. -/
inductive Number where
  | integer (i : Int) (lower : -9223372036854775808 ≤ i) (upper : i < 18446744073709551616)
  | float (x : Finite64)
deriving DecidableEq

end Json

/-- A JSON tree. -/
inductive Json where
  | null
  | bool (b : Bool)
  | number (n : Json.Number)
  | string (s : String)
  | array (items : List Json)
  | object (members : List (String × Json))
deriving Inhabited

namespace Json

def Number.toBinary : Number → Binary64
  | .integer i _ _ => Floating.ofInt .binary64 i
  | .float x => .finite x

def Number.toInt? : Number → Option Int
  | .integer i _ _ => some i
  | .float _ => none

def Number.text : Number → String
  | .integer i _ _ => Decimal.intText i
  | .float x => x.text .json

def Number.ofInt? (i : Int) : Option Number :=
  if h : -9223372036854775808 ≤ i ∧ i < 18446744073709551616 then some (.integer i h.1 h.2)
  else none

/-- A finite number as itself; there is no text for the others, so they become null. -/
def ofBinary : Binary64 → Json
  | .finite x => .number (.float x)
  | .infinite _ => .null
  | .nan _ => .null

def isNull : Json → Bool
  | .null => true
  | _ => false

/-- The number in double precision, if the tree is a number. -/
def toBinary? : Json → Option Binary64
  | .number n => some n.toBinary
  | _ => none

def toText? : Json → Option String
  | .string s => some s
  | _ => none

def toBool? : Json → Option Bool
  | .bool b => some b
  | _ => none

def toItems? : Json → Option (List Json)
  | .array items => some items
  | _ => none

def toMembers? : Json → Option (Entries Json)
  | .object members => some members
  | _ => none

/-- The 128-bit integer that a tree denotes: an integer, or the text of one with blanks around
it. -/
def toInt128? : Json → Option Int128
  | .number n => n.toInt?.bind Int128.ofInt?
  | .string s => (Decimal.readSigned? (Text.trimmed s)).bind Int128.ofInt?
  | _ => none

end Json

end DocumentSchema
