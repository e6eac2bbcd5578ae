import DocumentSchema.Query.Matcher
import DocumentSchema.Schema.Basic

/-!
# Paths to fields

A path names a field by the names of the fields around it and the positions of tuples, with points
between them. A wildcard says no more than the array it stands for, so it is dropped. An index knows
the field by the remaining segments joined with underscores.
-/

set_option autoImplicit false

namespace DocumentSchema.Query

def wildcard : List Char := ['[', '*', ']']

def dropWildcard (segment : List Char) : List Char :=
  if wildcard.isSuffixOf segment then segment.take (segment.length - wildcard.length) else segment

/-- The segments of a path that name fields and positions. -/
def segments (path : String) : List String :=
  (((Text.cut '.' path.toList).map dropWildcard).filter fun s => s ≠ [] ∧ s ≠ ['*']).map
    String.ofList

/-- The name by which an index knows the field at a path. -/
def searchName (path : String) : String := String.intercalate "_" (segments path)

/-- Where in a schema a path has led so far. -/
inductive Place where
  | level (fields : Entries Field)
  | field (kind : Kind)
  | position (kind : Scalar)

/-- Goes from fields to one of them; only an indexed one can be searched. -/
def Place.member (path segment : String) (fields : Entries Field) : Except QueryError Place :=
  match fields.get? segment with
  | none => .error (.unknownField path)
  | some found =>
    if found.indexed then .ok (.field found.kind)
    else .error (.notSearchable path .unindexed)

/-- Goes one segment further: into an object, or to a position of a tuple. -/
def Place.descend (path segment : String) : Place → Except QueryError Place
  | .level fields => member path segment fields
  | .field (.object fields) => member path segment fields
  | .field (.tuple positions) =>
    match Decimal.readCount? segment.toList with
    | none => .error (.notTraversable path segment)
    | some index =>
      match positions[index]? with
      | none => .error (.unknownField path)
      | some (.scalar kind) => .ok (.position kind)
      | some (.object fields) => .ok (.level fields)
  | _ => .error (.notTraversable path segment)

def Place.follow (path : String) (place : Place) (segments : List String) :
    Except QueryError Place :=
  segments.foldlM (fun place segment => place.descend path segment) place

/-- The fresh matcher of a place with the name of its kind, if it can be searched. -/
def Place.matcher (path : String) (storage : Storage) :
    Place → Except QueryError (KindName × Matcher)
  | .level _ => .error (.notALeaf path)
  | .field kind =>
    match Matcher.ofKind? storage kind with
    | some m => .ok (kind.name, m)
    | none => .error (.notALeaf path)
  | .position kind => .ok (.scalar kind, Matcher.ofScalar storage kind)

/-- Finds the field at a path. Links are not searched, and a hash has no fields below its own. -/
def resolve (schema : Schema) (storage : Storage) (path : String) :
    Except QueryError (KindName × Matcher) :=
  match segments path with
  | [] => .error (.unknownField path)
  | first :: others =>
    if schema.references.contains first then .error (.notSearchable path .reference)
    else if schema.relations.contains first then .error (.notSearchable path .relation)
    else do
      let place ← Place.follow path (.level schema.fields) (first :: others)
      if storage = .hash ∧ others ≠ [] then .error (.notSearchable path .nestedInHash)
      else place.matcher path storage

end DocumentSchema.Query
