import DocumentSchema.Query.Search

/-!
# Sessions

A session is a search with the calls made on it. Operators reach the clause opened last for as long
as every call since then was an operator that succeeded; after a refusal or a call on the search
itself they reach nothing, while the clause stays in the search.
-/

set_option autoImplicit false

namespace DocumentSchema.Query

/-- A call on a session. -/
inductive Call where
  | openClause (path : String)
  | andClause (path : String)
  | operate (operator : Operator)
  | not
  | dialect (dialect : UInt32)
  | page (page : Page)
  | sortBy (path : String) (order : SortOrder)
  | inspect

/-- What a call comes to. -/
inductive Outcome where
  | done
  | refused (error : QueryError)
  | skipped
deriving DecidableEq

/-- A search, and whether its last clause is open. -/
structure Session where
  search : Search
  isOpen : Bool := false

namespace Session

/-- A session on a search without clauses. -/
def start (schema : Schema) (storage : Storage) : Session := { search := { schema, storage } }

/-- Changes the search, and says whether its last clause is open after a success. -/
def after (session : Session) (isOpen : Bool) (edit : Edit QueryError Search Unit) :
    Session × Outcome :=
  match edit.on session.search with
  | (.ok (), search) => (⟨search, isOpen⟩, .done)
  | (.error e, search) => (⟨search, false⟩, .refused e)

/-- Changes the search through its last clause, which has to be open. -/
def onClause (session : Session) (edit : Edit QueryError Search Unit) : Session × Outcome :=
  if session.isOpen then session.after true edit else (session, .skipped)

def step (session : Session) : Call → Session × Outcome
  | .openClause path => session.after true (Edit.replace (Search.addClause path))
  | .andClause path => session.onClause (Edit.replace (Search.addClause path))
  | .operate operator => session.onClause (Search.operate operator)
  | .not => session.onClause (modify Search.negate)
  | .dialect dialect => session.after false (modify (Search.setDialect dialect))
  | .page page => session.after false (modify (Search.setPage page))
  | .sortBy path order => session.after false (Edit.replace (Search.sortBy path order))
  | .inspect => session.after false (pure ())

def run (session : Session) (calls : List Call) : Session :=
  calls.foldl (fun session call => (session.step call).1) session

end Session

end DocumentSchema.Query
