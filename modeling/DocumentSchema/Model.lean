import DocumentSchema.Codec.Hash
import DocumentSchema.Codec.Tree
import DocumentSchema.Index.Definition
import DocumentSchema.Query.Search
import DocumentSchema.Store.Search

/-!
# Models

A model is a schema with a name and settings, on a store that it may share with others. It writes
documents in the form of its settings under its own keys, keeps its index in step with its schema by
a fingerprint noted beside the index, and reads what searches find back into documents.
-/

set_option autoImplicit false

namespace DocumentSchema

/-- A named schema with its settings. -/
structure Model where
  name : String
  schema : Schema
  settings : Settings

/-- Why a model refuses a call. -/
inductive ModelError where
  | encode (error : EncodeError)
  | decode (error : DecodeError)
  | query (error : Query.QueryError)
  | store (error : StoreError)
deriving DecidableEq

/-- A call on a store: it gives an answer or an error, and the next store in either case. -/
abbrev Action (α : Type) := ExceptT ModelError (StateM Store) α

namespace Action

def lift {ε α : Type} (wrap : ε → ModelError) : Except ε α → Action α
  | .ok a => pure a
  | .error e => throw (wrap e)

def update (next : Store → Except StoreError Store) : Action Unit := do
  let store ← lift .store (next (← get))
  set store

end Action

/-- A page of documents by identifier, and how many there are in all. -/
structure Results where
  total : Nat
  documents : List (String × Document)

namespace Model

def indexDefinition (m : Model) : IndexDefinition := m.schema.indexDefinition m.name m.settings

def indexName (m : Model) : String := m.settings.indexName m.name

/-- The key of the note with the fingerprint of the index. -/
def fingerprintKey (m : Model) : String := m.indexName ++ ":hash"

/-- Creates the index unless the one there has the same fingerprint, which an older one gives way
to. Tells whether it created one. -/
def createIndex (m : Model) : Action Bool := do
  let fingerprint := m.indexDefinition.fingerprint
  let noted := (← get).note? m.fingerprintKey
  if noted = some fingerprint then return false
  if noted.isSome then Action.update fun store => store.dropIndex m.indexName
  Action.update fun store => store.createIndex m.indexDefinition.arguments
  modify fun store => store.setNote m.fingerprintKey fingerprint
  return true

def dropIndex (m : Model) : Action Unit := do
  Action.update fun store => store.dropIndex m.indexName
  modify fun store => store.deleteNote m.fingerprintKey

/-- Writes a document; one without any text to keep in a hash is removed instead. -/
def save (m : Model) (id : String) (doc : Document) : Action Unit := do
  let key := m.settings.key id
  match m.settings.storage with
  | .hash =>
    let fields ← Action.lift .encode (m.schema.encodeHash doc)
    if fields.isEmpty then modify fun store => store.delete key
    else modify fun store => store.write key (.hash fields)
  | .json =>
    let json ← Action.lift .encode (m.schema.encodeTree doc)
    modify fun store => store.write key (.tree json)

def fetch (m : Model) (id : String) : Action (Option Document) := do
  let key := m.settings.key id
  match m.settings.storage with
  | .hash =>
    match ← Action.lift .store ((← get).readHash key) with
    | none => return none
    | some fields => return some (← Action.lift .decode (m.schema.decodeHash fields))
  | .json =>
    match ← Action.lift .store ((← get).readTree key) with
    | none => return none
    | some json => return some (← Action.lift .decode (m.schema.decodeTree json))

/-- Removes the document of an identifier. Tells whether there was one. -/
def remove (m : Model) (id : String) : Action Bool := do
  let key := m.settings.key id
  let existed := (← get).holds key
  modify fun store => store.delete key
  return existed

/-- A new search with the dialect and the page size of the settings. -/
def search (m : Model) : Query.Search :=
  { schema := m.schema, storage := m.settings.storage, dialect := m.settings.dialect,
    page := some ⟨0, m.settings.pageSize⟩ }

def idOfKey (m : Model) (key : String) : String :=
  let start := m.settings.keyStart.toList
  if start.isPrefixOf key.toList then String.ofList (key.toList.drop start.length) else key

def ofStored (m : Model) : Stored → Except DecodeError Document
  | .hash fields => m.schema.decodeHash fields
  | .tree json => m.schema.decodeTree json

def ofEntries (m : Model) : List (String × Stored) → Except DecodeError (List (String × Document))
  | [] => .ok []
  | (key, stored) :: rest => do
    let doc ← m.ofStored stored
    let docs ← m.ofEntries rest
    return (m.idOfKey key, doc) :: docs

/-- Compiles a search, sends it to the store and reads the reply. -/
def execute (m : Model) (search : Query.Search) : Action Results := do
  let request ← Action.lift .query search.compile
  let (found, store) := (← get).search (request.arguments m.indexName)
  set store
  let reply ← Action.lift .store found
  let documents ← Action.lift .decode (m.ofEntries reply.documents)
  return ⟨reply.total, documents⟩

end Model

end DocumentSchema
