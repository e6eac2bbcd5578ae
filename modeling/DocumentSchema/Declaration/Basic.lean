import DocumentSchema.Json.Basic

/-!
# Declarations of fields

What a caller writes for a field: the bare name of a kind, or a table of options of which all but
the kind may be missing. `Attributes` holds the options with plain values; those with declarations
inside stand beside them.
-/

set_option autoImplicit false

namespace DocumentSchema

/-- The options of a field that hold no declarations. -/
structure Attributes where
  kind : String
  optional : Option Bool := none
  sortable : Option Bool := none
  indexed : Option Bool := none
  default : Option Json := none
  separator : Option String := none
  caseSensitive : Option Bool := none
  weight : Option Binary64 := none
  phonetic : Option String := none
  literals : Option (List Json) := none
  algorithm : Option String := none
  component : Option String := none
  dimension : Option UInt32 := none
  metric : Option String := none
  initialCap : Option UInt32 := none
  blockSize : Option UInt32 := none
  m : Option UInt32 := none
  efConstruction : Option UInt32 := none
  efRuntime : Option UInt32 := none
  epsilon : Option Binary64 := none
  target : Option String := none

mutual

/-- The declaration of a field. -/
inductive Declaration where
  | shorthand (kind : String)
  /-- Options, with the elements of arrays and tuples, the fields of objects and the fields of the
  edges of relations. -/
  | full (attributes : Attributes) (elements : Option Elements)
      (properties : Option (List (String × Declaration)))
      (edge : Option (List (String × Declaration)))

/-- The elements of an array, or the positions of a tuple. -/
inductive Elements where
  | kind (name : String)
  | fields (fields : List (String × Declaration))
  | positions (positions : List Position)

/-- One position of a tuple. -/
inductive Position where
  | kind (name : String)
  | fields (fields : List (String × Declaration))

end

/-- Declarations by field name. -/
abbrev Declarations := Entries Declaration

/-- The options in the order of a declaration that lists their values, by their names in JSON. -/
def optionNames : List String :=
  ["type", "optional", "sortable", "index", "default", "separator", "caseSensitive", "weight",
    "phonetic", "literal", "algorithm", "vectorType", "dimension", "distance", "initialCap",
    "blockSize", "m", "efConstruction", "efRuntime", "epsilon", "elements", "properties", "schema",
    "meta"]

def indexAlias : String := "indexed"

end DocumentSchema
