import DocumentSchema.Declaration.Basic

/-!
# Declarations from JSON trees

A text is a bare kind name. An object is a table of options by name, of which unknown ones are
ignored; an array is the values of the options in their order, of which the last may be missing.
A null is no value, except for the kind. A value of the wrong sort makes the whole tree unreadable.
-/

set_option autoImplicit false

namespace DocumentSchema

def readOption? {α : Type} (read : Json → Option α) : Option Json → Option (Option α)
  | none => some none
  | some .null => some none
  | some json => (read json).map some

def readWord? : Json → Option UInt32
  | .number n => do
    let i ← n.toInt?
    if 0 ≤ i ∧ i < 4294967296 then some (UInt32.ofNat i.toNat) else none
  | _ => none

/-- Reads the options without declarations inside; `option` gives the value at a name. -/
def Attributes.read? (option : String → Option Json) : Option Attributes := do
  let kind ← (option "type").bind Json.toText?
  let optional ← readOption? Json.toBool? (option "optional")
  let sortable ← readOption? Json.toBool? (option "sortable")
  let indexed ← readOption? Json.toBool? (option "index")
  let default ← readOption? some (option "default")
  let separator ← readOption? Json.toText? (option "separator")
  let caseSensitive ← readOption? Json.toBool? (option "caseSensitive")
  let weight ← readOption? Json.toBinary? (option "weight")
  let phonetic ← readOption? Json.toText? (option "phonetic")
  let literals ← readOption? Json.toItems? (option "literal")
  let algorithm ← readOption? Json.toText? (option "algorithm")
  let component ← readOption? Json.toText? (option "vectorType")
  let dimension ← readOption? readWord? (option "dimension")
  let metric ← readOption? Json.toText? (option "distance")
  let initialCap ← readOption? readWord? (option "initialCap")
  let blockSize ← readOption? readWord? (option "blockSize")
  let m ← readOption? readWord? (option "m")
  let efConstruction ← readOption? readWord? (option "efConstruction")
  let efRuntime ← readOption? readWord? (option "efRuntime")
  let epsilon ← readOption? Json.toBinary? (option "epsilon")
  let target ← readOption? Json.toText? (option "schema")
  return { kind, optional, sortable, indexed, default, separator, caseSensitive, weight, phonetic,
           literals, algorithm, component, dimension, metric, initialCap, blockSize, m,
           efConstruction, efRuntime, epsilon, target }

/-- The value at a name in a table of options; the index option has two names. -/
def optionIn (members : Entries Json) (name : String) : Option Json :=
  match members.get? name with
  | some json => some json
  | none => if name = "index" then members.get? indexAlias else none

/-- The value at a name in a list of the options' values. -/
def optionAt (items : List Json) (name : String) : Option Json :=
  Entries.get? (optionNames.zip items) name

/-- The options that hold declarations. -/
structure NestedOptions where
  elements : Option Elements := none
  properties : Option Declarations := none
  edge : Option Declarations := none

mutual

def Declaration.ofJson? : Json → Option Declaration
  | .string kind => some (.shorthand kind)
  | .object members =>
    if Entries.contains members "index" && Entries.contains members indexAlias then none
    else do
      let attributes ← Attributes.read? (optionIn members)
      let nested ← nestedOptionsIn? members
      return .full attributes nested.elements nested.properties nested.edge
  | .array items =>
    if items.length ≤ optionNames.length then do
      let attributes ← Attributes.read? (optionAt items)
      let nested ← nestedOptionsAt? optionNames items
      return .full attributes nested.elements nested.properties nested.edge
    else none
  | _ => none
termination_by structural j => j

/-- Reads the options with declarations inside from a table. -/
def nestedOptionsIn? : List (String × Json) → Option NestedOptions
  | [] => some {}
  | (name, json) :: rest => do
    let nested ← nestedOptionsIn? rest
    if name = "elements" then return { nested with elements := ← elementsOfJson? json }
    else if name = "properties" then return { nested with properties := ← propertiesOfJson? json }
    else if name = "meta" then return { nested with edge := ← propertiesOfJson? json }
    else return nested
termination_by structural members => members

/-- Reads the options with declarations inside from a list of values, given their names. -/
def nestedOptionsAt? (names : List String) : List Json → Option NestedOptions
  | [] => some {}
  | json :: rest => do
    let nested ← nestedOptionsAt? names.tail rest
    if names.head? = some "elements" then
      return { nested with elements := ← elementsOfJson? json }
    else if names.head? = some "properties" then
      return { nested with properties := ← propertiesOfJson? json }
    else if names.head? = some "meta" then return { nested with edge := ← propertiesOfJson? json }
    else return nested
termination_by structural items => items

/-- Reads the elements of an array or the positions of a tuple. -/
def elementsOfJson? : Json → Option (Option Elements)
  | .null => some none
  | .string name => some (some (.kind name))
  | .object members => (declarationsOfMembers? members).map fun fields => some (.fields fields)
  | .array items => (positionsOfItems? items).map fun positions => some (.positions positions)
  | _ => none
termination_by structural j => j

def propertiesOfJson? : Json → Option (Option Declarations)
  | .null => some none
  | .object members => (declarationsOfMembers? members).map some
  | _ => none
termination_by structural j => j

def declarationsOfMembers? : List (String × Json) → Option Declarations
  | [] => some []
  | (name, json) :: rest => do
    let declaration ← Declaration.ofJson? json
    let declarations ← declarationsOfMembers? rest
    return (name, declaration) :: declarations
termination_by structural members => members

def positionsOfItems? : List Json → Option (List Position)
  | [] => some []
  | json :: rest => do
    let position ← positionOfJson? json
    let positions ← positionsOfItems? rest
    return position :: positions
termination_by structural items => items

def positionOfJson? : Json → Option Position
  | .string name => some (.kind name)
  | .object members => (declarationsOfMembers? members).map .fields
  | _ => none
termination_by structural j => j

end

end DocumentSchema
