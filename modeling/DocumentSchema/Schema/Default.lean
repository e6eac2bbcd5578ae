import DocumentSchema.Schema.Basic
import DocumentSchema.Schema.Error
import DocumentSchema.Value.Json

/-!
# Defaults

A default is declared as a JSON tree and kept as the value its field stores. A null fits every kind.
Texts, numbers and truth values are the text of a text field; a date becomes a number of
milliseconds, whichever way it is written; a member of an object that no field describes is kept as
it is.
-/

set_option autoImplicit false

namespace DocumentSchema

/-- The place that a tree denotes: its text, or an object with both numbers. -/
def Json.toCoordinates? : Json → Option Coordinates
  | .string s => Coordinates.read? s
  | .object members => do
    let longitude ← (Entries.get? members "longitude").bind Json.toBinary?
    let latitude ← (Entries.get? members "latitude").bind Json.toBinary?
    return ⟨longitude, latitude⟩
  | _ => none

namespace Default

def text (path : String) (json : Json) : Except SchemaError Value :=
  match json with
  | .string s => .ok (.string s)
  | .number n => .ok (.string n.text)
  | .bool b => .ok (.string (Value.boolText b))
  | _ => .error (.invalidDefault path json .notText)

def number (path : String) (literals : Option (List Binary64)) (json : Json) :
    Except SchemaError Value :=
  match json.toBinary? with
  | none => .error (.invalidDefault path json .notNumber)
  | some x =>
    if admits Floating.equal literals x then .ok (.number x)
    else .error (.invalidDefault path json .notLiteral)

def bigInt (path : String) (literals : Option (List Int128)) (json : Json) :
    Except SchemaError Value :=
  match json.toInt128? with
  | none => .error (.invalidDefault path json .notInteger)
  | some i =>
    if admits (fun a b => a = b) literals i then .ok (.bigInt i)
    else .error (.invalidDefault path json .notLiteral)

def boolean (path : String) (json : Json) : Except SchemaError Value :=
  match json.toBool? with
  | some b => .ok (.bool b)
  | none => .error (.invalidDefault path json .notBoolean)

/-- The default of a date: its milliseconds as a number. -/
def date (path : String) (json : Json) : Except SchemaError Value :=
  match (Value.ofJson json).toMillis? with
  | some millis => .ok (.number (Floating.ofInt .binary64 millis))
  | none => .error (.invalidDefault path json .notDate)

def point (path : String) (json : Json) : Except SchemaError Value :=
  match json.toCoordinates? with
  | none => .error (.invalidDefault path json .notPoint)
  | some p =>
    if p.isValid then .ok (.point p) else .error (.invalidDefault path json .outOfRange)

/-- The default of a vector: as many numbers as it has components. -/
def vector (path : String) (dimension : UInt32) (json : Json) : Except SchemaError Value :=
  match json.toItems? with
  | none => .error (.invalidDefault path json .notVector)
  | some items =>
    if items.length ≠ dimension.toNat then .error (.invalidDefault path json .vectorLength)
    else
      match items.mapM Json.toBinary? with
      | some xs => .ok (.array (xs.map .number))
      | none => .error (.invalidDefault path json .notVector)

def scalar (path : String) (kind : Scalar) (json : Json) : Except SchemaError Value :=
  if json.isNull then .ok .null
  else
    match kind with
    | .string => text path json
    | .number => number path none json
    | .bigInt => bigInt path none json
    | .boolean => boolean path json
    | .text => text path json
    | .date => date path json
    | .point => point path json

def items (path : String) (read : String → Json → Except SchemaError Value) :
    (index : Nat) → List Json → Except SchemaError (List Value)
  | _, [] => .ok []
  | index, json :: rest => do
    let v ← read (path ++ "." ++ Decimal.natText index) json
    let vs ← items path read (index + 1) rest
    return v :: vs

/-- The default of an object, given how the described members are read; a null is no object here. -/
def object (path : String) (fields : Entries Field)
    (read : Entries Json → Except SchemaError (Entries Value)) (json : Json) :
    Except SchemaError Value :=
  match json with
  | .object members => do
    let described ← read members
    return .object (Entries.insertAll described
      (Value.membersOfJson (undescribed fields members)))
  | _ => .error (.invalidDefault path json .notObject)

mutual

/-- The value that a field of a kind keeps for the declared default. -/
def ofKind (path : String) : Kind → Json → Except SchemaError Value
  | kind, json =>
    if json.isNull then .ok .null
    else
      match kind with
      | .string _ _ => text path json
      | .number literals => number path literals json
      | .bigInt literals => bigInt path literals json
      | .boolean => boolean path json
      | .text _ _ => text path json
      | .date => date path json
      | .point => point path json
      | .vector options => vector path options.dimension json
      | .array elements _ =>
        match json with
        | .array trees => do
          let values ← items path (fun path tree => ofElement path elements tree) 0 trees
          return .array values
        | _ => .error (.invalidDefault path json .notArray)
      | .tuple positions =>
        match json with
        | .array trees =>
          if trees.length ≠ positions.length then
            .error (.invalidDefault path json .tupleLength)
          else do
            let values ← ofPositions path 0 positions trees
            return .array values
        | _ => .error (.invalidDefault path json .notArray)
      | .object fields => object path fields (fun members => ofMembers path fields members) json
termination_by structural k => k

def ofElement (path : String) : Element → Json → Except SchemaError Value
  | .scalar kind, json => scalar path kind json
  | .object fields, json => object path fields (fun members => ofMembers path fields members) json
termination_by structural e => e

def ofPositions (path : String) (index : Nat) :
    List Element → List Json → Except SchemaError (List Value)
  | e :: es, json :: rest => do
    let v ← ofElement (path ++ "." ++ Decimal.natText index) e json
    let vs ← ofPositions path (index + 1) es rest
    return v :: vs
  | _, _ => .ok []
termination_by structural es => es

def ofMembers (path : String) :
    List (String × Field) → Entries Json → Except SchemaError (Entries Value)
  | [], _ => .ok []
  | (name, .mk kind _ _ _ _) :: rest, members =>
    match members.get? name with
    | none => ofMembers path rest members
    | some json => do
      let v ← ofKind (path ++ "." ++ name) kind json
      let vs ← ofMembers path rest members
      return (name, v) :: vs
termination_by structural fs => fs

end

end Default

end DocumentSchema
