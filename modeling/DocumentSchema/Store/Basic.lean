import DocumentSchema.Bytes
import DocumentSchema.Entries
import DocumentSchema.Json.Basic

/-!
# Stores

A store holds documents by key, indexes by name with the arguments they were created with, notes by
key, and a log of the searches made on it. Every command gives its answer and the next store.
-/

set_option autoImplicit false

namespace DocumentSchema

/-- A document as a store holds it. -/
inductive Stored where
  | hash (fields : Entries String)
  | tree (json : Json)

def Stored.isTree : Stored → Bool
  | .hash _ => false
  | .tree _ => true

/-- Why a store refuses a command. -/
inductive StoreError where
  | indexExists
  | unknownIndex
  | createWithoutName
  | searchWithoutName
  | incompleteLimit
  | holdsTree (key : String)
  | holdsHash (key : String)
deriving DecidableEq

namespace StoreError

/-- Whether the command was well formed, but the store could not follow it. -/
def isBackend : StoreError → Bool
  | .indexExists => true
  | .unknownIndex => true
  | _ => false

def reason : StoreError → String
  | .indexExists => "Index already exists"
  | .unknownIndex => "Unknown index name"
  | .createWithoutName => "FT.CREATE without an index name"
  | .searchWithoutName => "FT.SEARCH without an index name"
  | .incompleteLimit => "LIMIT expects offset and count"
  | .holdsTree key => "'" ++ key ++ "' holds a JSON document"
  | .holdsHash key => "'" ++ key ++ "' holds a hash"

def message (e : StoreError) : String :=
  (if e.isBackend then "store backend error: " else "unexpected reply: ") ++ e.reason

end StoreError

/-- A store. -/
structure Store where
  documents : Entries Stored := []
  indexes : Entries (List String) := []
  notes : Entries String := []
  searches : List (List Bytes) := []

namespace Store

def write (store : Store) (key : String) (stored : Stored) : Store :=
  { store with documents := store.documents.insert key stored }

def readHash (store : Store) (key : String) : Except StoreError (Option (Entries String)) :=
  match store.documents.get? key with
  | none => .ok none
  | some (.hash fields) => .ok (some fields)
  | some (.tree _) => .error (.holdsTree key)

def readTree (store : Store) (key : String) : Except StoreError (Option Json) :=
  match store.documents.get? key with
  | none => .ok none
  | some (.tree json) => .ok (some json)
  | some (.hash _) => .error (.holdsHash key)

def holds (store : Store) (key : String) : Bool := store.documents.contains key

def delete (store : Store) (key : String) : Store :=
  { store with documents := store.documents.erase key }

/-- Creates an index; the first argument is its name, which must be new. -/
def createIndex (store : Store) (arguments : List String) : Except StoreError Store :=
  match arguments with
  | [] => .error .createWithoutName
  | name :: _ =>
    if store.indexes.contains name then .error .indexExists
    else .ok { store with indexes := store.indexes.insert name arguments }

def dropIndex (store : Store) (name : String) : Except StoreError Store :=
  if store.indexes.contains name then .ok { store with indexes := store.indexes.erase name }
  else .error .unknownIndex

def note? (store : Store) (key : String) : Option String := store.notes.get? key

def setNote (store : Store) (key text : String) : Store :=
  { store with notes := store.notes.insert key text }

def deleteNote (store : Store) (key : String) : Store :=
  { store with notes := store.notes.erase key }

/-- Forgets documents, indexes, notes and the log. -/
def clear (_store : Store) : Store := {}

end Store

end DocumentSchema
