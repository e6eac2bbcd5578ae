import DocumentSchema.Json.Printer
import DocumentSchema.Schema.Kind
import DocumentSchema.Text.Quoted

/-!
# Faults of a schema

Why a declaration is refused. Each fault names the key it was found at, a dotted path below the top
level, and says how to mend it.
-/

set_option autoImplicit false

namespace DocumentSchema

/-- The kinds that a bare name cannot stand for, because they need an option. -/
inductive Bare where
  | object
  | tuple
  | reference
  | relation
deriving DecidableEq

def Bare.label : Bare → String
  | .object => "object"
  | .tuple => "tuple"
  | .reference => "reference"
  | .relation => "relation"

def Bare.hint : Bare → String
  | .object => "\"properties\": \x7b ... \x7d"
  | .tuple => "\"elements\": [ ... ]"
  | .reference => "\"schema\": \"<name>\" or \"self\""
  | .relation => "\"schema\": \"<name>\" or \"self\""

def Bare.read? (name : String) : Option Bare :=
  [Bare.object, .tuple, .reference, .relation].find? fun b => b.label = name

/-- An option that a kind cannot do without. -/
inductive Requirement where
  | target
  | properties
  | algorithm
  | metric
  | component
  | dimension
deriving DecidableEq

def Requirement.option : Requirement → String
  | .target => "schema"
  | .properties => "properties"
  | .algorithm => "algorithm"
  | .metric => "distance"
  | .component => "vectorType"
  | .dimension => "dimension"

def Requirement.hint : Requirement → String
  | .target => "name the target schema or use \"self\""
  | .properties => "describe the nested fields under \"properties\""
  | .algorithm => "set \"algorithm\" to FLAT or HNSW"
  | .metric => "set \"distance\" to L2, IP or COSINE"
  | .component => "set \"vectorType\" to FLOAT32 or FLOAT64"
  | .dimension => "set \"dimension\" to the embedding length"

/-- An option with a value that it cannot have. -/
inductive OptionFault where
  | linkBelowTop (kind : String)
  | positionsInArray
  | elementsNotPositions
  | separator (text : String)
  | elementKind (name : String)
  | numberLiteral (value : Json)
  | bigIntLiteral (value : Json)
  | weight (value : Binary64)
  | phonetic (name : String)
  | zeroDimension
  | algorithm (name : String)
  | metric (name : String)
  | component (name : String)

namespace OptionFault

def option : OptionFault → String
  | .linkBelowTop _ => "type"
  | .positionsInArray => "elements"
  | .elementsNotPositions => "elements"
  | .separator _ => "separator"
  | .elementKind _ => "elements"
  | .numberLiteral _ => "literal"
  | .bigIntLiteral _ => "literal"
  | .weight _ => "weight"
  | .phonetic _ => "phonetic"
  | .zeroDimension => "dimension"
  | .algorithm _ => "algorithm"
  | .metric _ => "distance"
  | .component _ => "vectorType"

def value : OptionFault → String
  | .linkBelowTop kind => kind
  | .positionsInArray => "[...]"
  | .elementsNotPositions => "non-list"
  | .separator text => text
  | .elementKind name => name
  | .numberLiteral value => value.text
  | .bigIntLiteral value => value.text
  | .weight value => value.text
  | .phonetic name => name
  | .zeroDimension => "0"
  | .algorithm name => name
  | .metric name => name
  | .component name => name

def hint : OptionFault → String
  | .linkBelowTop _ =>
    "references and relations are only allowed at the top level of a schema"
  | .positionsInArray =>
    "arrays take a single element kind or field map; use \"type\": \"tuple\" for positional " ++
      "elements"
  | .elementsNotPositions => "tuple elements are a list such as [\"number\", \"string\"]"
  | .separator _ => "use a single character"
  | .elementKind _ =>
    "elements must be string, number, bigint, boolean, text, date, point or a field map"
  | .numberLiteral _ => "number literals must be numbers"
  | .bigIntLiteral _ => "bigint literals must be integers or integer strings"
  | .weight _ => "weight must be a positive number"
  | .phonetic _ => "use dm:en, dm:fr, dm:pt or dm:es"
  | .zeroDimension => "dimension must be positive"
  | .algorithm _ => "use FLAT or HNSW"
  | .metric _ => "use L2, IP or COSINE"
  | .component _ => "use FLOAT32 or FLOAT64"

end OptionFault

/-- Why a default does not fit its field. -/
inductive DefaultFault where
  | notText
  | notNumber
  | notInteger
  | notLiteral
  | notBoolean
  | notDate
  | notPoint
  | outOfRange
  | notVector
  | vectorLength
  | notArray
  | tupleLength
  | notObject
deriving DecidableEq

def DefaultFault.reason : DefaultFault → String
  | .notText => "expected a string"
  | .notNumber => "expected a number"
  | .notInteger => "expected an integer"
  | .notLiteral => "not one of the allowed literals"
  | .notBoolean => "expected a boolean"
  | .notDate => "expected epoch milliseconds or an RFC 3339 string"
  | .notPoint => "expected \x7b\"longitude\", \"latitude\"\x7d"
  | .outOfRange => "coordinates out of range"
  | .notVector => "expected an array of numbers"
  | .vectorLength => "length does not match the vector dimension"
  | .notArray => "expected an array"
  | .tupleLength => "length does not match the tuple"
  | .notObject => "expected an object"

/-- Why a tree cannot be read as declarations at all. -/
inductive ReadFault where
  | root (tree : Json)
  /-- Somewhere below the root an option has a value of the wrong sort. -/
  | field

/-- What a root is, in words; a number stands as in JSON text. -/
def rootText : Json → String
  | .null => "null"
  | .bool b => "boolean `" ++ Value.boolText b ++ "`"
  | .number (.integer i _ _) => "integer `" ++ Decimal.intText i ++ "`"
  | .number (.float x) => "floating point `" ++ x.text .json ++ "`"
  | .string s => "string " ++ Text.quoted s
  | .array _ => "sequence"
  | .object _ => "map"

def ReadFault.reason : ReadFault → String
  | .root tree => "invalid type: " ++ rootText tree ++ ", expected a map"
  | .field => "data did not match any variant of untagged enum RawField"

/-- Why a schema is refused. -/
inductive SchemaError where
  | reservedName (field : String)
  | unknownKind (field kind : String)
  | bareKind (field : String) (kind : Bare)
  | missingOption (field : String) (requirement : Requirement)
  | invalidOption (field : String) (fault : OptionFault)
  | invalidDefault (field : String) (value : Json) (fault : DefaultFault)
  | emptyTuple (field : String)
  | unknownTarget (field target : String)
  | malformed (fault : ReadFault)

namespace SchemaError

/-- The key with the fault; a tree that cannot be read has none. -/
def key : SchemaError → String
  | .reservedName field => field
  | .unknownKind field _ => field
  | .bareKind field _ => field
  | .missingOption field _ => field
  | .invalidOption field _ => field
  | .invalidDefault field _ _ => field
  | .emptyTuple field => field
  | .unknownTarget field _ => field
  | .malformed _ => ""

/-- The kinds that a declaration can name, as the message lists them. -/
def kindList : String :=
  "string, number, bigint, boolean, text, date, point, vector, array, tuple, object, " ++
    "reference, relation"

def message : SchemaError → String
  | .reservedName field =>
    "field '" ++ field ++ "' starts with the reserved '$' prefix; rename it"
  | .unknownKind field kind =>
    "field '" ++ field ++ "' has unknown type '" ++ kind ++ "'; use one of " ++ kindList
  | .bareKind field kind =>
    "field '" ++ field ++ "' uses '" ++ kind.label ++ "' as shorthand; write \x7b \"type\": \"" ++
      kind.label ++ "\", " ++ kind.hint ++ " \x7d instead"
  | .missingOption field requirement =>
    "field '" ++ field ++ "' is missing required option '" ++ requirement.option ++ "'; " ++
      requirement.hint
  | .invalidOption field fault =>
    "field '" ++ field ++ "' has invalid value '" ++ fault.value ++ "' for option '" ++
      fault.option ++ "'; " ++ fault.hint
  | .invalidDefault field value fault =>
    "field '" ++ field ++ "' has invalid default '" ++ value.text ++ "': " ++ fault.reason
  | .emptyTuple field =>
    "tuple field '" ++ field ++ "' needs at least one element; list them under \"elements\""
  | .unknownTarget field target =>
    "field '" ++ field ++ "' references unknown schema '" ++ target ++
      "'; register it first or use \"self\""
  | .malformed fault => "schema could not be read: " ++ fault.reason

end SchemaError

end DocumentSchema
