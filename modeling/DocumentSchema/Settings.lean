import DocumentSchema.Json.Basic
import DocumentSchema.Storage

/-!
# Settings of a model

The form of stored documents, what keys and index names start with, the dialect of queries and the
size of a page. Each setting has a standard value. Settings are read from an object by name or from
an array in order; a setting that is there must be of its sort, and only the dialect may be null.
-/

set_option autoImplicit false

namespace DocumentSchema

/-- The settings of a model. -/
structure Settings where
  storage : Storage := .json
  keyStart : String := ""
  indexStart : String := "idx:"
  dialect : Option UInt32 := none
  pageSize : UInt64 := 10
deriving DecidableEq

namespace Settings

def key (s : Settings) (id : String) : String := s.keyStart ++ id

def indexName (s : Settings) (model : String) : String := s.indexStart ++ model

/-- The names of the settings in the order of an array. -/
def names : List String := ["storage", "key_prefix", "index_prefix", "dialect", "page_size"]

/-- Reads the form of stored documents: its name, or an object with the name and a null. -/
def readStorage? : Json → Option Storage
  | .string "hash" => some .hash
  | .string "json" => some .json
  | .object [("hash", .null)] => some .hash
  | .object [("json", .null)] => some .json
  | _ => none

def readNatural? (limit : Nat) : Json → Option Nat
  | .number n => do
    let i ← n.toInt?
    if 0 ≤ i ∧ i < limit then some i.toNat else none
  | _ => none

def readDialect? : Json → Option (Option UInt32)
  | .null => some none
  | json => (readNatural? 4294967296 json).map fun n => some (UInt32.ofNat n)

def readOr {α : Type} (standard : α) (read : Json → Option α) : Option Json → Option α
  | none => some standard
  | some json => read json

def ofValues? (value : String → Option Json) : Option Settings := do
  let standard : Settings := {}
  let storage ← readOr standard.storage readStorage? (value "storage")
  let keyStart ← readOr standard.keyStart Json.toText? (value "key_prefix")
  let indexStart ← readOr standard.indexStart Json.toText? (value "index_prefix")
  let dialect ← readOr standard.dialect readDialect? (value "dialect")
  let pageSize ← readOr standard.pageSize
    (fun json => (readNatural? 18446744073709551616 json).map UInt64.ofNat) (value "page_size")
  return { storage, keyStart, indexStart, dialect, pageSize }

def ofJson? : Json → Option Settings
  | .object members => ofValues? fun name => Entries.get? members name
  | .array items =>
    if items.length ≤ names.length then ofValues? fun name => Entries.get? (names.zip items) name
    else none
  | _ => none

end Settings

end DocumentSchema
