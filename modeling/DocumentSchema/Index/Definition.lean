import DocumentSchema.Digest.Sha256
import DocumentSchema.Index.Attributes
import DocumentSchema.Query.Path
import DocumentSchema.Settings
import DocumentSchema.Text.Hex

/-!
# Index definitions

What a store is told to index for a model. An index of hashes has the top-level fields by their
names, arrays of scalars as tags. An index of trees has every indexed leaf by its path in the tree,
arrays of scalars by all their items. The fingerprint changes with any argument of the command that
creates the index.
-/

set_option autoImplicit false

namespace DocumentSchema

/-- A field of an index: where it stands in a document, and its name in queries. -/
structure IndexField where
  path : String
  searchName : String
  attributes : List String
deriving DecidableEq

/-- The arguments of a field; its name is given if it is not its path. -/
def IndexField.arguments (f : IndexField) : List String :=
  f.path :: (if f.path = f.searchName then [] else ["AS", f.searchName]) ++ f.attributes

/-- An index on the keys that start with a text. -/
structure IndexDefinition where
  name : String
  storage : Storage
  keyStart : String
  fields : List IndexField
deriving DecidableEq

namespace Index

def hashAttributes (sortable : Bool) : Kind → Option (List String)
  | .array (.scalar _) separator => some (separatedTag separator)
  | kind => leafAttributes sortable kind

def hashFields (fields : Entries Field) : List IndexField :=
  fields.filterMap fun e =>
    if e.2.indexed then
      (hashAttributes e.2.sortable e.2.kind).map fun attributes => ⟨e.1, e.1, attributes⟩
    else none

def namePath (above name : String) : String := if above.isEmpty then name else above ++ "." ++ name

mutual

/-- The index fields of trees at a field of a kind, by its path in trees and its dotted path. -/
def treeKind (sortable : Bool) (treePath dotted : String) : Kind → List IndexField
  | .object fields => treeFields treePath dotted fields
  | .array (.scalar kind) _ =>
    [⟨treePath ++ "[*]", Query.searchName dotted, elementAttributes kind⟩]
  | .array (.object _) _ => []
  | .tuple positions => treePositions treePath dotted 0 positions
  | kind =>
    match leafAttributes sortable kind with
    | none => []
    | some attributes => [⟨treePath, Query.searchName dotted, attributes⟩]
termination_by structural k => k

/-- The index fields of trees at the positions of a tuple from an index on. -/
def treePositions (treePath dotted : String) (index : Nat) : List Element → List IndexField
  | [] => []
  | element :: rest =>
    treePosition (treePath ++ "[" ++ Decimal.natText index ++ "]")
        (dotted ++ "." ++ Decimal.natText index) element ++
      treePositions treePath dotted (index + 1) rest
termination_by structural es => es

/-- The index fields of trees at a position of a tuple. -/
def treePosition (treePath dotted : String) : Element → List IndexField
  | .scalar kind => [⟨treePath, Query.searchName dotted, elementAttributes kind⟩]
  | .object fields => treeFields treePath dotted fields
termination_by structural e => e

/-- The index fields of trees at the indexed fields of an object. -/
def treeFields (treePath dotted : String) : List (String × Field) → List IndexField
  | [] => []
  | (name, .mk kind _ sortable indexed _) :: rest =>
    (if indexed then
      treeKind sortable (treePath ++ "." ++ name) (namePath dotted name) kind
    else []) ++ treeFields treePath dotted rest
termination_by structural fs => fs

end

end Index

def Schema.indexDefinition (schema : Schema) (model : String) (settings : Settings) :
    IndexDefinition :=
  { name := settings.indexName model
    storage := settings.storage
    keyStart := settings.keyStart
    fields :=
      match settings.storage with
      | .hash => Index.hashFields schema.fields
      | .json => Index.treeFields "$" "" schema.fields }

namespace IndexDefinition

/-- The arguments that say which keys the index has; it has all keys without them. -/
def keyArguments (keyStart : String) : List String :=
  if keyStart.isEmpty then [] else ["PREFIX", "1", keyStart]

/-- The arguments of the command that creates the index. -/
def arguments (d : IndexDefinition) : List String :=
  [d.name, "ON", d.storage.label] ++ keyArguments d.keyStart ++ "SCHEMA" ::
    d.fields.flatMap IndexField.arguments

/-- A text with its length in front, so that texts in a row can be told apart. -/
def framed (argument : String) : Bytes :=
  littleEndian 8 (utf8 argument).length ++ utf8 argument

def frames (arguments : List String) : Bytes := arguments.flatMap framed

def fingerprint (d : IndexDefinition) : String :=
  Text.hexText (Sha256.digest (frames d.arguments))

end IndexDefinition

end DocumentSchema
