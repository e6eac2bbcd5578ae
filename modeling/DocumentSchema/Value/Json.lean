import DocumentSchema.Json.Basic
import DocumentSchema.Value.Basic

/-!
# Values as JSON trees

How a value looks in a JSON tree where no field describes it. Numbers become floating-point numbers
(null if not finite), big integers and points their text, dates their milliseconds. Reading back
gives no big integers, points or dates, because nothing tells them from texts and numbers.
-/

set_option autoImplicit false

namespace DocumentSchema

/-- The milliseconds of an instant are an integer that 64 bits hold. -/
def Json.ofInstant (t : Instant) : Json :=
  .number (.integer t.millis t.millis_lower t.millis_upper)

namespace Value

mutual

def toJson : Value → Json
  | .null => .null
  | .bool b => .bool b
  | .number x => .ofBinary x
  | .bigInt i => .string i.text
  | .string s => .string s
  | .date t => .ofInstant t
  | .point p => .string p.text
  | .array items => .array (itemsToJson items)
  | .object members => .object (membersToJson members)
termination_by structural v => v

def itemsToJson : List Value → List Json
  | [] => []
  | v :: rest => v.toJson :: itemsToJson rest
termination_by structural items => items

def membersToJson : List (String × Value) → List (String × Json)
  | [] => []
  | (name, v) :: rest => (name, v.toJson) :: membersToJson rest
termination_by structural members => members

end

mutual

def ofJson : Json → Value
  | .null => .null
  | .bool b => .bool b
  | .number n => .number n.toBinary
  | .string s => .string s
  | .array items => .array (itemsOfJson items)
  | .object members => .object (membersOfJson members)
termination_by structural j => j

def itemsOfJson : List Json → List Value
  | [] => []
  | j :: rest => ofJson j :: itemsOfJson rest
termination_by structural items => items

def membersOfJson : List (String × Json) → List (String × Value)
  | [] => []
  | (name, j) :: rest => (name, ofJson j) :: membersOfJson rest
termination_by structural members => members

end

end Value

end DocumentSchema
