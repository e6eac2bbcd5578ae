import DocumentSchema.Index.Definition
import DocumentSchema.Proofs.Query.Path

/-!
# The dotted paths of a schema

Every field and every position of a tuple has one dotted path, made of the names and positions on
the way to it. `schemaPaths` lists them depth first, in the order of the names, whether an index has
the fields or not. The paths below a field have the segments of the field and at least one more
(`Below`).
-/

set_option autoImplicit false

namespace DocumentSchema.Index

open Query

/-! ## Enumeration -/

mutual

/-- The paths below a field of a kind; those of an array are in its elements. -/
def kindPaths (dotted : String) : Kind → List String
  | .object fields => fieldPaths dotted fields
  | .array element _ => elementPaths dotted element
  | .tuple positions => positionPaths dotted 0 positions
  | _ => []
termination_by structural kind => kind

/-- The paths of the positions of a tuple from an index on, each before those below it. -/
def positionPaths (dotted : String) (index : Nat) : List Element → List String
  | [] => []
  | element :: rest =>
    (dotted ++ "." ++ Decimal.natText index) ::
      elementPaths (dotted ++ "." ++ Decimal.natText index) element ++
        positionPaths dotted (index + 1) rest
termination_by structural elements => elements

/-- The paths of what is inside an element. -/
def elementPaths (dotted : String) : Element → List String
  | .scalar _ => []
  | .object fields => fieldPaths dotted fields
termination_by structural element => element

/-- The paths of fields, each before those below it. -/
def fieldPaths (dotted : String) : List (String × Field) → List String
  | [] => []
  | (name, .mk kind _ _ _ _) :: rest =>
    namePath dotted name :: kindPaths (namePath dotted name) kind ++ fieldPaths dotted rest
termination_by structural fields => fields

end

/-- The paths of all fields and positions of a schema, in order. -/
def schemaPaths (schema : Schema) : List String := fieldPaths "" schema.fields

/-! ## Plain names -/

mutual

/-- The names inside a kind can all be spelled in paths. -/
def kindPlain : Kind → Prop
  | .object fields => fieldsPlain fields
  | .array element _ => elementPlain element
  | .tuple positions => positionsPlain positions
  | _ => True
termination_by structural kind => kind

/-- The same for every position of a tuple. -/
def positionsPlain : List Element → Prop
  | [] => True
  | element :: rest => elementPlain element ∧ positionsPlain rest
termination_by structural elements => elements

/-- The same for an element. -/
def elementPlain : Element → Prop
  | .scalar _ => True
  | .object fields => fieldsPlain fields
termination_by structural element => element

/-- All fields, and all fields below them, have plain names. -/
def fieldsPlain : List (String × Field) → Prop
  | [] => True
  | (name, .mk kind _ _ _ _) :: rest => PlainName name ∧ kindPlain kind ∧ fieldsPlain rest
termination_by structural fields => fields

end

/-! ## Below -/

/-- A path with the segments of another one and at least one more. -/
def Below (above path : String) : Prop :=
  ∃ segment rest, segments path = segments above ++ segment :: rest

/-- What is below a path that is below another is below that one. -/
theorem Below.trans {above middle path : String} (h : Below above middle)
    (hpath : Below middle path) : Below above path := by
  obtain ⟨segment, rest, hmiddle⟩ := h
  obtain ⟨next, others, hpath⟩ := hpath
  refine ⟨segment, rest ++ next :: others, ?_⟩
  rw [hpath, hmiddle, List.append_assoc, List.cons_append]

/-- The path of a field ends in the name of the field. -/
theorem segments_namePath (dotted : String) {name : String} (h : PlainName name) :
    segments (namePath dotted name) = segments dotted ++ [name] := by
  rw [namePath]
  by_cases hempty : dotted.isEmpty = true
  · rw [if_pos hempty, segments_plain h, String.isEmpty_iff.1 hempty]
    rfl
  · rw [if_neg hempty, segments_point, segments_plain h]

/-- The path of a position ends in the number of the position. -/
theorem segments_position (dotted : String) (index : Nat) :
    segments (dotted ++ "." ++ Decimal.natText index) =
      segments dotted ++ [Decimal.natText index] := by
  rw [segments_point, segments_plain (plainName_natText index)]

/-- A field is below the path of its level. -/
theorem below_namePath (dotted : String) {name : String} (h : PlainName name) :
    Below dotted (namePath dotted name) :=
  ⟨name, [], segments_namePath dotted h⟩

/-- A position is below the path of its tuple. -/
theorem below_position (dotted : String) (index : Nat) :
    Below dotted (dotted ++ "." ++ Decimal.natText index) :=
  ⟨Decimal.natText index, [], segments_position dotted index⟩

mutual

/-- Whatever stands below a field has a path below that of the field. -/
theorem below_kindPaths (kind : Kind) (hplain : kindPlain kind) (dotted : String) :
    ∀ path ∈ kindPaths dotted kind, Below dotted path := by
  cases kind with
  | object fields => exact below_fieldPaths fields hplain dotted
  | array element separator => exact below_elementPaths element hplain dotted
  | tuple positions => exact below_positionPaths positions hplain dotted 0
  | _ =>
    intro path h
    cases h
termination_by structural kind

/-- All paths of the positions of a tuple are below its own. -/
theorem below_positionPaths (positions : List Element) (hplain : positionsPlain positions)
    (dotted : String) (index : Nat) :
    ∀ path ∈ positionPaths dotted index positions, Below dotted path := by
  intro path h
  cases positions with
  | nil => cases h
  | cons element rest =>
    have hposition := below_position dotted index
    rcases List.mem_append.1 h with hhere | hrest
    · rcases List.mem_cons.1 hhere with rfl | hbelow
      · exact hposition
      · exact hposition.trans (below_elementPaths element hplain.1 _ path hbelow)
    · exact below_positionPaths rest hplain.2 dotted (index + 1) path hrest
termination_by structural positions

/-- All paths of an element are below its own. -/
theorem below_elementPaths (element : Element) (hplain : elementPlain element) (dotted : String) :
    ∀ path ∈ elementPaths dotted element, Below dotted path := by
  cases element with
  | scalar kind =>
    intro path h
    cases h
  | object fields => exact below_fieldPaths fields hplain dotted
termination_by structural element

/-- All paths of the fields of a level are below its own. -/
theorem below_fieldPaths (fields : List (String × Field)) (hplain : fieldsPlain fields)
    (dotted : String) : ∀ path ∈ fieldPaths dotted fields, Below dotted path := by
  intro path h
  cases fields with
  | nil => cases h
  | cons e rest =>
    obtain ⟨name, kind, optional, sortable, indexed, default⟩ := e
    obtain ⟨hname, hkind, hrest⟩ := hplain
    have hfield := below_namePath dotted hname
    rcases List.mem_append.1 h with hhere | hmore
    · rcases List.mem_cons.1 hhere with rfl | hbelow
      · exact hfield
      · exact hfield.trans (below_kindPaths kind hkind _ path hbelow)
    · exact below_fieldPaths rest hrest dotted path hmore
termination_by structural fields

end

end DocumentSchema.Index
