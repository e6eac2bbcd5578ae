import DocumentSchema.Declaration.Basic

/-!
# Declarations as JSON trees

The tree of a declaration has a member for each option that is given, by its first name. Reading the
tree back gives the declaration again, except that a default of null reads as no default.
-/

set_option autoImplicit false

namespace DocumentSchema

def Json.ofWord (w : UInt32) : Json :=
  .number (.integer w.toNat (by omega) (by have := w.toNat_lt; omega))

def Attributes.members (a : Attributes) : List (String × Option Json) :=
  [("type", some (.string a.kind)),
    ("optional", a.optional.map .bool),
    ("sortable", a.sortable.map .bool),
    ("index", a.indexed.map .bool),
    ("default", a.default),
    ("separator", a.separator.map .string),
    ("caseSensitive", a.caseSensitive.map .bool),
    ("weight", a.weight.map .ofBinary),
    ("phonetic", a.phonetic.map .string),
    ("literal", a.literals.map .array),
    ("algorithm", a.algorithm.map .string),
    ("vectorType", a.component.map .string),
    ("dimension", a.dimension.map .ofWord),
    ("distance", a.metric.map .string),
    ("initialCap", a.initialCap.map .ofWord),
    ("blockSize", a.blockSize.map .ofWord),
    ("m", a.m.map .ofWord),
    ("efConstruction", a.efConstruction.map .ofWord),
    ("efRuntime", a.efRuntime.map .ofWord),
    ("epsilon", a.epsilon.map .ofBinary),
    ("schema", a.target.map .string)]

def givenMembers (members : List (String × Option Json)) : Entries Json :=
  Entries.ofList (members.filterMap fun e => e.2.map fun json => (e.1, json))

mutual

def Declaration.toJson : Declaration → Json
  | .shorthand kind => .string kind
  | .full attributes elements properties edge =>
    .object (givenMembers (attributes.members ++
      [("elements", elementsToJson? elements),
        ("properties", propertiesToJson? properties),
        ("meta", propertiesToJson? edge)]))
termination_by structural d => d

def elementsToJson? : Option Elements → Option Json
  | none => none
  | some elements => some elements.toJson
termination_by structural e => e

/-- The tree of the elements of an array or the positions of a tuple. -/
def Elements.toJson : Elements → Json
  | .kind name => .string name
  | .fields fields => .object (declarationsToMembers fields)
  | .positions positions => .array (positionsToItems positions)
termination_by structural e => e

def propertiesToJson? : Option (List (String × Declaration)) → Option Json
  | none => none
  | some fields => some (.object (declarationsToMembers fields))
termination_by structural p => p

def declarationsToMembers : List (String × Declaration) → List (String × Json)
  | [] => []
  | (name, declaration) :: rest => (name, declaration.toJson) :: declarationsToMembers rest
termination_by structural ds => ds

def positionsToItems : List Position → List Json
  | [] => []
  | position :: rest => position.toJson :: positionsToItems rest
termination_by structural ps => ps

def Position.toJson : Position → Json
  | .kind name => .string name
  | .fields fields => .object (declarationsToMembers fields)
termination_by structural p => p

end

def Declarations.toJson (declarations : Declarations) : Json :=
  .object (declarationsToMembers declarations)

end DocumentSchema
