import DocumentSchema.Query.Circle
import DocumentSchema.Schema.Kind

/-!
# Faults of a query

Why a path cannot be searched, why a clause refuses an operator, and why a query cannot be compiled.
-/

set_option autoImplicit false

namespace DocumentSchema.Query

/-- What a clause expects of a value. -/
inductive Expected where
  | boolean
  | integerInRange
  | integer
  | scalar
  | finiteNumber
  | date
  | point
  | text
deriving DecidableEq

def Expected.label : Expected → String
  | .boolean => "a boolean"
  | .integerInRange => "an integer in the 128-bit range"
  | .integer => "an integer"
  | .scalar => "a scalar"
  | .finiteNumber => "a finite number"
  | .date => "a date, epoch milliseconds or an RFC 3339 string"
  | .point => "a point"
  | .text => "text"

/-- Why a clause cannot use an argument. -/
inductive ValueFault where
  | unexpected (expected : Expected) (found : ValueName)
  | circleOutOfRange (circle : Circle)
  | vectorLength (found expected : Nat)
  | vectorNotFinite
  | noNeighbours
  | radiusNotADistance (radius : Binary64)
  | negatedNeighbours
deriving DecidableEq

def ValueFault.reason : ValueFault → String
  | .unexpected expected found => "expected " ++ expected.label ++ ", got " ++ found.label
  | .circleOutOfRange circle => "circle '" ++ circle.text ++ "' is out of range"
  | .vectorLength found expected =>
    "vector has " ++ Decimal.natText found ++ " components, field expects " ++
      Decimal.natText expected
  | .vectorNotFinite => "vector components must be finite"
  | .noNeighbours => "k must be at least 1"
  | .radiusNotADistance radius => "radius " ++ radius.text ++ " is not a finite distance"
  | .negatedNeighbours => "nearest-neighbour clauses cannot be negated"

/-- The operators of clauses and of the order of results. -/
inductive OperatorName where
  | eq
  | or
  | gt
  | gte
  | lt
  | lte
  | between
  | exact
  | within
  | knn
  | range
  | sortBy
deriving DecidableEq

def OperatorName.label : OperatorName → String
  | .eq => "eq"
  | .or => "or"
  | .gt => "gt"
  | .gte => "gte"
  | .lt => "lt"
  | .lte => "lte"
  | .between => "between"
  | .exact => "exact"
  | .within => "within"
  | .knn => "knn"
  | .range => "range"
  | .sortBy => "sort_by"

/-- Why an index does not have a field. -/
inductive Unsearchable where
  | unindexed
  | reference
  | relation
  | nestedInHash
deriving DecidableEq

def Unsearchable.label : Unsearchable → String
  | .unindexed => "non-indexed field"
  | .reference => "reference"
  | .relation => "relation"
  | .nestedInHash => "nested field in hash storage"

/-- Why a query is refused. -/
inductive QueryError where
  | unknownField (path : String)
  | notALeaf (path : String)
  | notTraversable (path segment : String)
  | notSearchable (path : String) (reason : Unsearchable)
  | unsupportedOperator (field : String) (kind : KindName) (operator : OperatorName)
  | invalidValue (field : String) (fault : ValueFault)
  | incompleteClause (field : String)
deriving DecidableEq

def QueryError.message : QueryError → String
  | .unknownField path => "field '" ++ path ++ "' does not exist in the schema"
  | .notALeaf path => "field '" ++ path ++ "' is an object and not a queryable leaf"
  | .notTraversable path segment =>
    "cannot descend into '" ++ segment ++ "' of '" ++ path ++
      "': not an object or array of objects"
  | .notSearchable path reason =>
    "field '" ++ path ++ "' is a " ++ reason.label ++ " and cannot be searched"
  | .unsupportedOperator field kind operator =>
    "operator '" ++ operator.label ++ "' is not supported on " ++ kind.label ++ " field '" ++
      field ++ "'"
  | .invalidValue field fault => "field '" ++ field ++ "' cannot use value: " ++ fault.reason
  | .incompleteClause field =>
    "clause on '" ++ field ++ "' has no value; call an operator before compiling"

end DocumentSchema.Query
