import DocumentSchema.Query.Request
import DocumentSchema.Store.Basic

/-!
# Searching a store

A search does not look at its query: it finds every document of the index's form under the index's
key start, in key order, and gives the page that is asked for. Both are read from the arguments the
index was created with, and the page from the arguments of the search, at the first argument that is
the keyword.
-/

set_option autoImplicit false

namespace DocumentSchema

namespace Store

def isKeyword (keyword text : String) : Bool := text.toUpper = keyword.toUpper

/-- The argument a number of places after the first occurrence of a keyword. -/
def argumentAfter? (arguments : List String) (keyword : String) (skipped : Nat) : Option String :=
  match arguments.findIdx? (isKeyword keyword) with
  | none => none
  | some i => arguments[i + 1 + skipped]?

/-- Reads a count from an argument; a byte outside ASCII is no digit. -/
def readCountBytes? (bytes : Bytes) : Option UInt64 :=
  (Decimal.readCount? (bytes.map fun b => Char.ofNat b.toNat)).map UInt64.ofNat

/-- The page that the arguments of a search ask for, if they have the keyword. -/
def pageOf (arguments : List Bytes) : Except StoreError (Option Query.Page) :=
  match arguments.findIdx? fun a => a = utf8 "LIMIT" with
  | none => .ok none
  | some i =>
    match arguments[i + 1]?.bind readCountBytes?, arguments[i + 2]?.bind readCountBytes? with
    | some offset, some count => .ok (some ⟨offset, count⟩)
    | _, _ => .error .incompleteLimit

def textOf? (bytes : Bytes) : Option String := String.fromUTF8? ⟨bytes.toArray⟩

/-- What a search finds: how many documents in all, and those of the page by key. -/
structure Reply where
  total : Nat
  documents : List (String × Stored)

def matching (store : Store) (index : List String) : List (String × Stored) :=
  let start := (argumentAfter? index "PREFIX" 1).getD ""
  let trees := match argumentAfter? index "ON" 0 with
    | some form => isKeyword "JSON" form
    | none => false
  store.documents.filter fun e => start.toList.isPrefixOf e.1.toList && e.2.isTree = trees

def onPage {α : Type} (entries : List α) : Option Query.Page → List α
  | none => entries
  | some page => (entries.drop page.offset.toNat).take page.count.toNat

def reply (store : Store) (arguments : List Bytes) : Except StoreError Reply :=
  match arguments.head?.bind textOf? with
  | none => .error .searchWithoutName
  | some name =>
    match store.indexes.get? name with
    | none => .error .unknownIndex
    | some index => do
      let found := store.matching index
      let page ← pageOf arguments
      return ⟨found.length, onPage found page⟩

def logged (store : Store) (arguments : List Bytes) : Store :=
  { store with searches := store.searches ++ [arguments] }

/-- Makes a search, which goes into the log whatever comes of it. -/
def search (store : Store) (arguments : List Bytes) : Except StoreError Reply × Store :=
  (store.reply arguments, store.logged arguments)

end Store

end DocumentSchema
