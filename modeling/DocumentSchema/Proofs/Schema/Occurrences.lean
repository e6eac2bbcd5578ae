import DocumentSchema.Proofs.Schema.Canonical

/-!
# Fields at every depth

A schema has fields at its top and on the edges of its relations, and below those in objects, in the
elements of arrays and at the positions of tuples. Its occurrences are all of them, depth first and
in the order of the names, each with the path that messages give it. The warnings of resolution are
what the occurrences call for one by one (`fieldsWarnings_eq`), and the invariant of resolved fields
holds of each occurrence on its own (`Occurrence.Resolved`).
-/

set_option autoImplicit false

namespace DocumentSchema

/-- A field somewhere in a schema, with its path in messages and its own name. -/
structure Occurrence where
  path : String
  name : String
  field : Field

mutual

/-- A field and the fields below it. -/
def Field.occurrences (path name : String) : Field → List Occurrence
  | .mk kind optional sortable indexed default =>
    ⟨path, name, .mk kind optional sortable indexed default⟩ :: kind.occurrences path
termination_by structural field => field

/-- The fields below a field of a kind. -/
def Kind.occurrences (path : String) : Kind → List Occurrence
  | .array element _ => element.occurrences path
  | .tuple positions => positionsOccurrences path 0 positions
  | .object fields => fieldsOccurrences path fields
  | _ => []
termination_by structural kind => kind

/-- The fields in an element, at every depth. -/
def Element.occurrences (path : String) : Element → List Occurrence
  | .scalar _ => []
  | .object fields => fieldsOccurrences path fields
termination_by structural element => element

/-- The fields at the positions of a tuple from an index on. -/
def positionsOccurrences (path : String) (index : Nat) : List Element → List Occurrence
  | [] => []
  | element :: elements =>
    element.occurrences (path ++ "." ++ Decimal.natText index) ++
      positionsOccurrences path (index + 1) elements
termination_by structural elements => elements

/-- The fields of one level, each before those below it. -/
def fieldsOccurrences (above : String) : List (String × Field) → List Occurrence
  | [] => []
  | (name, field) :: rest =>
    field.occurrences (above ++ "." ++ name) name ++ fieldsOccurrences above rest
termination_by structural fields => fields

end

/-- What a schema holds at one of its names: a field with the fields below it, or the fields on the
edges of a relation. -/
def Schema.occurrencesAt (schema : Schema) (name : String) : List Occurrence :=
  (match schema.fields.get? name with
    | some field => field.occurrences name name
    | none => []) ++
  match (schema.relations.get? name).bind Relation.edge with
  | some fields => fieldsOccurrences (name ++ ".meta") fields
  | none => []

/-! ## Warnings -/

/-- An array of objects calls for a warning. -/
def Occurrence.warning? (o : Occurrence) : Option Warning :=
  match o.field.kind with
  | .array (.object _) _ => some (.unsearchableArray o.path)
  | _ => none

mutual

/-- A field and the fields below it call for their warnings one by one. -/
theorem Field.warnings_eq (field : Field) (path name : String) :
    field.warnings path = (field.occurrences path name).filterMap Occurrence.warning? := by
  obtain ⟨kind, optional, sortable, indexed, default⟩ := field
  rw [Field.warnings, Field.occurrences, List.filterMap_cons, Kind.warnings_eq kind path]
  cases kind with
  | array element separator => cases element <;> rfl
  | _ => rfl
termination_by structural field

/-- A kind calls for the warnings of the fields below it, after that of an array of objects. -/
theorem Kind.warnings_eq (kind : Kind) (path : String) :
    kind.warnings path = (match kind with
      | .array element _ => element.arrayWarnings path
      | _ => []) ++ (kind.occurrences path).filterMap Occurrence.warning? := by
  cases kind with
  | array element separator =>
    rw [Kind.warnings, Kind.occurrences, Element.warnings_eq element path]
  | tuple positions => exact positionsWarnings_eq positions path 0
  | object fields => exact fieldsWarnings_eq fields path
  | _ => rfl
termination_by structural kind

/-- The warnings of an element are those of the fields in it. -/
theorem Element.warnings_eq (element : Element) (path : String) :
    element.warnings path = (element.occurrences path).filterMap Occurrence.warning? := by
  cases element with
  | scalar kind => rfl
  | object fields => exact fieldsWarnings_eq fields path
termination_by structural element

/-- The warnings of a tuple are those of the fields in its positions. -/
theorem positionsWarnings_eq (elements : List Element) (path : String) (index : Nat) :
    positionsWarnings path index elements =
      (positionsOccurrences path index elements).filterMap Occurrence.warning? := by
  cases elements with
  | nil => rfl
  | cons element rest =>
    rw [positionsWarnings, positionsOccurrences, List.filterMap_append,
      Element.warnings_eq element, positionsWarnings_eq rest]
termination_by structural elements

/-- The fields of a level call for their warnings one by one. -/
theorem fieldsWarnings_eq (fields : List (String × Field)) (above : String) :
    fieldsWarnings above fields =
      (fieldsOccurrences above fields).filterMap Occurrence.warning? := by
  cases fields with
  | nil => rfl
  | cons first rest =>
    obtain ⟨name, field⟩ := first
    rw [fieldsWarnings, fieldsOccurrences, List.filterMap_append,
      Field.warnings_eq field _ name, fieldsWarnings_eq rest]
termination_by structural fields

end

/-! ## The invariant of one field -/

/-- What resolution guarantees of a field and its name, whatever is around it. -/
def Occurrence.Resolved (o : Occurrence) : Prop :=
  o.name.toList.head? ≠ some Resolution.reservedStart ∧ ∃ inherited, o.field.Resolved inherited

mutual

/-- All fields in a resolved field are resolved, itself included. -/
theorem Field.occurrences_resolved (field : Field) {inherited : Bool}
    (h : field.Resolved inherited) {name : String}
    (hname : name.toList.head? ≠ some Resolution.reservedStart) (path : String) :
    ∀ o ∈ field.occurrences path name, o.Resolved := by
  obtain ⟨kind, optional, sortable, indexed, default⟩ := field
  intro o ho
  rcases List.mem_cons.1 ho with rfl | ho
  · exact ⟨hname, inherited, h⟩
  · obtain ⟨_, _, hkind, _⟩ := h
    exact Kind.occurrences_resolved kind hkind path o ho
termination_by structural field

/-- All fields in a resolved kind are resolved. -/
theorem Kind.occurrences_resolved (kind : Kind) {indexed : Bool} (h : kind.Resolved indexed)
    (path : String) : ∀ o ∈ kind.occurrences path, o.Resolved := by
  cases kind with
  | array element separator => exact Element.occurrences_resolved element h.2 path
  | tuple positions => exact positionsOccurrences_resolved positions h.2.2 path 0
  | object fields => exact fieldsOccurrences_resolved fields h.2 path
  | _ =>
    intro o ho
    cases ho
termination_by structural kind

/-- All fields in a resolved element are resolved. -/
theorem Element.occurrences_resolved (element : Element) {indexed : Bool}
    (h : element.Resolved indexed) (path : String) :
    ∀ o ∈ element.occurrences path, o.Resolved := by
  cases element with
  | scalar kind =>
    intro o ho
    cases ho
  | object fields => exact fieldsOccurrences_resolved fields h.2 path
termination_by structural element

/-- All fields in resolved positions are resolved. -/
theorem positionsOccurrences_resolved (elements : List Element) {indexed : Bool}
    (h : positionsResolved indexed elements) (path : String) (index : Nat) :
    ∀ o ∈ positionsOccurrences path index elements, o.Resolved := by
  cases elements with
  | nil =>
    intro o ho
    cases ho
  | cons element rest =>
    intro o ho
    rcases List.mem_append.1 ho with ho | ho
    · exact Element.occurrences_resolved element h.1 _ o ho
    · exact positionsOccurrences_resolved rest h.2 path (index + 1) o ho
termination_by structural elements

/-- Every field of a level and below it satisfies the invariant. -/
theorem fieldsOccurrences_resolved (fields : List (String × Field)) {inherited : Bool}
    (h : fieldsResolved inherited fields) (above : String) :
    ∀ o ∈ fieldsOccurrences above fields, o.Resolved := by
  cases fields with
  | nil =>
    intro o ho
    cases ho
  | cons first rest =>
    obtain ⟨name, field⟩ := first
    obtain ⟨hname, hfield, hrest⟩ := h
    intro o ho
    rcases List.mem_append.1 ho with ho | ho
    · exact Field.occurrences_resolved field hfield hname _ o ho
    · exact fieldsOccurrences_resolved rest hrest above o ho
termination_by structural fields

end

end DocumentSchema
