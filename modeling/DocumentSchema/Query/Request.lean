import DocumentSchema.Bytes
import DocumentSchema.Decimal.Integer
import DocumentSchema.Entries

/-!
# Search requests

What a store gets to see of a query: its text, the bytes of its query vectors by parameter name, the
order and the page of the results, and the dialect of the query language. `arguments` lists all of
it after the name of the index.
-/

set_option autoImplicit false

namespace DocumentSchema.Query

/-- The order of results. -/
inductive SortOrder where
  | ascending
  | descending
deriving DecidableEq

def SortOrder.label : SortOrder → String
  | .ascending => "ASC"
  | .descending => "DESC"

/-- How many results are left out and how many follow. -/
structure Page where
  offset : UInt64
  count : UInt64
deriving DecidableEq

/-- A compiled query. -/
structure Request where
  query : String
  dialect : Option UInt32
  parameters : Entries Bytes
  sort : Option (String × SortOrder)
  page : Option Page
deriving DecidableEq

namespace Request

def sortArguments : Option (String × SortOrder) → List Bytes
  | none => []
  | some (field, order) => [utf8 "SORTBY", utf8 field, utf8 order.label]

def pageArguments : Option Page → List Bytes
  | none => []
  | some page =>
    [utf8 "LIMIT", utf8 (Decimal.natText page.offset.toNat),
      utf8 (Decimal.natText page.count.toNat)]

/-- The parameters with how many arguments they take, if there are any. -/
def parameterArguments (parameters : Entries Bytes) : List Bytes :=
  if parameters.isEmpty then []
  else
    [utf8 "PARAMS", utf8 (Decimal.natText (parameters.length * 2))] ++
      parameters.flatMap fun e => [utf8 e.1, e.2]

def dialectArguments : Option UInt32 → List Bytes
  | none => []
  | some dialect => [utf8 "DIALECT", utf8 (Decimal.natText dialect.toNat)]

def arguments (r : Request) (index : String) : List Bytes :=
  [utf8 index, utf8 r.query] ++ sortArguments r.sort ++ pageArguments r.page ++
    parameterArguments r.parameters ++ dialectArguments r.dialect

end Request

end DocumentSchema.Query
