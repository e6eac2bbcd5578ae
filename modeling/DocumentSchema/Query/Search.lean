import DocumentSchema.Query.Path
import DocumentSchema.Query.Request

/-!
# Searches

A search is clauses on the fields of one schema, in the order of their calls, with what is asked of
the results. All clauses must hold, except that the last clause on nearest neighbours picks from the
results of the others. `compile` gives the request, unless a clause has no value yet.
-/

set_option autoImplicit false

namespace DocumentSchema.Query

/-- A clause on a field. -/
structure Clause where
  path : String
  searchName : String
  kind : KindName
  negated : Bool
  matcher : Matcher
deriving DecidableEq

/-- A query under construction. -/
structure Search where
  schema : Schema
  storage : Storage
  clauses : List Clause := []
  dialect : Option UInt32 := none
  sort : Option (String × SortOrder) := none
  page : Option Page := none

namespace Clause

/-- The error of a clause whose matcher refuses an operator. -/
def refusal (clause : Clause) (operator : Operator) : Rejection → QueryError
  | .unsupported => .unsupportedOperator clause.path clause.kind operator.name
  | .invalid fault => .invalidValue clause.path fault

def operate (operator : Operator) : Edit QueryError Clause Unit := do
  let clause ← get
  (Matcher.operate operator).part (clause.refusal operator) clause.matcher
    fun matcher clause => { clause with matcher }

def negate (clause : Clause) : Clause := { clause with negated := !clause.negated }

/-- Refuses a clause without a value and a negated one on nearest neighbours. -/
def check (clause : Clause) : Except QueryError Unit :=
  if !clause.matcher.isComplete then .error (.incompleteClause clause.path)
  else if clause.matcher.nearest?.isSome && clause.negated then
    .error (.invalidValue clause.path .negatedNeighbours)
  else .ok ()

/-- The text of the clause in the chain of clauses; nearest neighbours have none. -/
def text? (clause : Clause) : Option String :=
  (clause.matcher.text? clause.searchName).map fun token =>
    if clause.negated then "(-(@" ++ clause.searchName ++ ":" ++ token ++ "))"
    else "(@" ++ clause.searchName ++ ":" ++ token ++ ")"

/-- The parameter of a clause on the vectors within a radius. -/
def parameter? (clause : Clause) : Option (String × Bytes) :=
  clause.matcher.rangeVector?.map fun vector => (rangeParameter clause.searchName, vector)

end Clause

/-- The parameter name of the query vector of nearest neighbours. -/
def nearestParameter : String := "BLOB"

def vectorDialect : UInt32 := 2

namespace Search

def addClause (path : String) (s : Search) : Except QueryError Search := do
  let (kind, matcher) ← resolve s.schema s.storage path
  return { s with clauses := s.clauses ++
    [{ path, searchName := searchName path, kind, negated := false, matcher }] }

def setLast (s : Search) (clause : Clause) : Search :=
  { s with clauses := s.clauses.dropLast ++ [clause] }

/-- Applies an operator to the last clause; without a clause there is nothing to do. -/
def operate (operator : Operator) : Edit QueryError Search Unit := do
  match (← get).clauses.getLast? with
  | none => pure ()
  | some clause =>
    (Clause.operate operator).part id clause fun clause search => search.setLast clause

def negate (s : Search) : Search :=
  match s.clauses.getLast? with
  | none => s
  | some clause => s.setLast clause.negate

def setDialect (dialect : UInt32) (s : Search) : Search := { s with dialect := some dialect }

def setPage (page : Page) (s : Search) : Search := { s with page := some page }

/-- Asks for an order of the results by a field other than a vector. -/
def sortBy (path : String) (order : SortOrder) (s : Search) : Except QueryError Search := do
  let (kind, matcher) ← resolve s.schema s.storage path
  if matcher.family = .vector then .error (.unsupportedOperator path kind .sortBy)
  else return { s with sort := some (searchName path, order) }

/-- The last clause on nearest neighbours: its field, how many, and the query vector. -/
def nearest? (s : Search) : Option (String × Nat × Bytes) :=
  (s.clauses.filterMap fun c =>
    c.matcher.nearest?.map fun found => (c.searchName, found.1, found.2)).getLast?

def chain (s : Search) : List String := s.clauses.filterMap Clause.text?

/-- The chain in front of a suffix: in parentheses if it has several clauses. -/
def guarded : List String → String
  | [] => "*"
  | [single] => single
  | many => "(" ++ String.intercalate " " many ++ ")"

def query (s : Search) : String :=
  match s.nearest? with
  | none => if s.chain.isEmpty then "*" else String.intercalate " " s.chain
  | some (field, count, _) =>
    guarded s.chain ++ "=>[KNN " ++ Decimal.natText count ++ " @" ++ field ++ " $" ++
      nearestParameter ++ "]"

def parameters (s : Search) : Entries Bytes :=
  let ranges := Entries.ofList (s.clauses.filterMap Clause.parameter?)
  match s.nearest? with
  | none => ranges
  | some (_, _, vector) => ranges.insert nearestParameter vector

def requestDialect (s : Search) : Option UInt32 :=
  if s.clauses.any fun c => c.matcher.family = .vector then
    some (max (s.dialect.getD vectorDialect) vectorDialect)
  else s.dialect

/-- The request of a search whose clauses all have a value. -/
def compile (s : Search) : Except QueryError Request := do
  s.clauses.forM Clause.check
  return { query := s.query, dialect := s.requestDialect, parameters := s.parameters,
           sort := s.sort, page := s.page }

end Search

end DocumentSchema.Query
