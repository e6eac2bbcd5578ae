import DocumentSchema.Index.Definition
import DocumentSchema.Proofs.Query.Location

/-!
# Leaves of a schema

The leaves of a place are what an index of trees has below it: the fields and positions that can be
searched, each with its location, depth first. The walk that writes the index and the locations that
lead somewhere agree: the fields of an index are the leaves of its schema (`fields_eq_leaves`), and
the leaves are the locations with something to search at their end (`mem_leaves`), no two of them the
same (`nodup_locations`).
-/

set_option autoImplicit false

namespace DocumentSchema.Index

open Query

/-- A field or position that an index of trees has, by its location. -/
structure Leaf where
  location : List Step
  place : Place

/-- A leaf as it is seen from one step above. -/
def Leaf.below (step : Step) (leaf : Leaf) : Leaf := { leaf with location := step :: leaf.location }

mutual

/-- The leaves at a field of a kind and below it. -/
def kindLeaves : Kind → List Leaf
  | .object fields => fieldsLeaves fields
  | .array (.object _) _ => []
  | .tuple positions => positionsLeaves 0 positions
  | kind => [⟨[], .field kind⟩]
termination_by structural kind => kind

/-- The leaves at the positions of a tuple from an index on. -/
def positionsLeaves (index : Nat) : List Element → List Leaf
  | [] => []
  | element :: rest =>
    (elementLeaves element).map (Leaf.below (.position index)) ++ positionsLeaves (index + 1) rest
termination_by structural elements => elements

/-- The leaves of an element of an array or of a tuple. -/
def elementLeaves : Element → List Leaf
  | .scalar kind => [⟨[], .position kind⟩]
  | .object fields => fieldsLeaves fields
termination_by structural element => element

/-- The leaves at the indexed fields of a level. -/
def fieldsLeaves : List (String × Field) → List Leaf
  | [] => []
  | (name, .mk kind _ _ indexed _) :: rest =>
    (if indexed then (kindLeaves kind).map (Leaf.below (.member name)) else []) ++ fieldsLeaves rest
termination_by structural fields => fields

end

/-- The leaves of a place. -/
def leaves : Place → List Leaf
  | .level fields => fieldsLeaves fields
  | .field kind => kindLeaves kind
  | .position kind => [⟨[], .position kind⟩]

/-- The top level of a sound schema is resolved. -/
theorem resolved_root {schema : Schema} (hschema : schema.Sound) :
    (Place.level schema.fields).Resolved :=
  ⟨hschema.ordered, true, hschema.resolved⟩

/-- The leaves of an element are those of the place that it is. -/
theorem elementLeaves_eq (element : Element) :
    elementLeaves element = leaves (.ofElement element) := by
  cases element <;> rfl

/-! ## Texts -/

/-- Whether an index has a leaf by its items. -/
def Leaf.byItems (leaf : Leaf) : Bool :=
  match leaf.place with
  | .field (.array _ _) => true
  | _ => false

/-- What follows the location in the path of an index field. -/
def Leaf.mark (leaf : Leaf) : String := if leaf.byItems then "[*]" else ""

/-- The path of the index field of a leaf below some path. -/
def Leaf.treePath (above : String) (leaf : Leaf) : String :=
  leaf.location.foldl (fun path step => path ++ step.treeText) above ++ leaf.mark

/-- The segments of the steps of a location. -/
def locationSegments (location : List Step) : List String :=
  location.flatMap fun step => segments step.text

/-- The name by which queries know a leaf below some path. -/
def Leaf.searchName (above : String) (leaf : Leaf) : String :=
  String.intercalate "_" (segments above ++ locationSegments leaf.location)

/-- A leaf has one search name, seen from a place or from one step above. -/
theorem Leaf.below_searchName {above path : String} {step : Step}
    (h : segments path = segments above ++ segments step.text) (leaf : Leaf) :
    (leaf.below step).searchName above = leaf.searchName path := by
  rw [Leaf.searchName, Leaf.searchName, h, List.append_assoc]
  rfl

/-- A leaf at a place has the search name of the place. -/
theorem Leaf.empty_searchName (place : Place) (dotted : String) :
    (Leaf.mk [] place).searchName dotted = Query.searchName dotted := by
  rw [Leaf.searchName, locationSegments, List.flatMap_nil, List.append_nil, Query.searchName]

/-- Whatever the name, its segments come after those of the path above. -/
theorem segments_namePath_append (dotted name : String) :
    segments (namePath dotted name) = segments dotted ++ segments name := by
  rw [namePath]
  split
  · rename_i hempty
    rw [String.isEmpty_iff.1 hempty]
    rfl
  · exact segments_point dotted name

/-- The path and the name of an index field. -/
def fieldTexts (f : IndexField) : String × String := (f.path, f.searchName)

/-- The path and the name of the index field of a leaf below some paths. -/
def Leaf.texts (treePath dotted : String) (leaf : Leaf) : String × String :=
  (leaf.treePath treePath, leaf.searchName dotted)

/-- Leaves have the same texts seen from one step above. -/
theorem map_below_texts (step : Step) {treePath dotted path : String}
    (h : segments path = segments dotted ++ segments step.text) (found : List Leaf) :
    (found.map (Leaf.below step)).map (Leaf.texts treePath dotted) =
      found.map (Leaf.texts (treePath ++ step.treeText) path) := by
  rw [List.map_map]
  refine List.map_congr_left fun leaf _ => ?_
  exact congrArg (Prod.mk _) (Leaf.below_searchName h leaf)

/-! ## The walk that writes an index -/

/-- The index fields of a leaf field have the texts of its leaves. -/
theorem treeLeaf_texts {kind : Kind} (hleaf : kind.isLeaf = true) (sortable : Bool)
    (treePath dotted : String) :
    (treeKind sortable treePath dotted kind).map fieldTexts =
      (kindLeaves kind).map (Leaf.texts treePath dotted) := by
  have hname := Leaf.empty_searchName (.field kind) dotted
  have htexts : [(treePath, Query.searchName dotted)] =
      [(Leaf.mk [] (.field kind)).texts treePath dotted] := by
    cases kind with
    | array element separator => cases hleaf
    | _ =>
      rw [Leaf.texts, hname, Leaf.treePath, List.foldl_nil]
      show _ = [(treePath ++ "", _)]
      rw [String.append_empty]
  cases kind with
  | array element separator => cases hleaf
  | tuple positions => cases hleaf
  | object fields => cases hleaf
  | _ => exact htexts

mutual

/-- The index fields at a field of a kind are those of its leaves. -/
theorem treeKind_texts (kind : Kind) (sortable : Bool) (treePath dotted : String) :
    (treeKind sortable treePath dotted kind).map fieldTexts =
      (kindLeaves kind).map (Leaf.texts treePath dotted) := by
  cases kind with
  | object fields => exact treeFields_texts fields treePath dotted
  | array element separator =>
    cases element with
    | scalar kind =>
      have hname := Leaf.empty_searchName (.field (.array (.scalar kind) separator)) dotted
      exact congrArg (fun name => [(treePath ++ "[*]", name)]) hname.symm
    | object fields => rfl
  | tuple positions => exact treePositions_texts positions treePath dotted 0
  | _ => exact treeLeaf_texts rfl sortable treePath dotted
termination_by structural kind

/-- The index fields of the positions of a tuple have the texts of their leaves. -/
theorem treePositions_texts (positions : List Element) (treePath dotted : String) (index : Nat) :
    (treePositions treePath dotted index positions).map fieldTexts =
      (positionsLeaves index positions).map (Leaf.texts treePath dotted) := by
  cases positions with
  | nil => rfl
  | cons element rest =>
    have hsegments := segments_point dotted (Decimal.natText index)
    have htext : treePath ++ "[" ++ Decimal.natText index ++ "]" =
        treePath ++ Step.treeText (.position index) := by
      simp only [Step.treeText, String.append_assoc]
    rw [treePositions, positionsLeaves, List.map_append, List.map_append,
      treePosition_texts element, treePositions_texts rest, htext,
      map_below_texts (.position index) hsegments]
termination_by structural positions

/-- The index fields of one position of a tuple have the texts of its leaves. -/
theorem treePosition_texts (element : Element) (treePath dotted : String) :
    (treePosition treePath dotted element).map fieldTexts =
      (elementLeaves element).map (Leaf.texts treePath dotted) := by
  cases element with
  | scalar kind =>
    have hname := Leaf.empty_searchName (.position kind) dotted
    rw [elementLeaves, List.map_singleton, Leaf.texts, hname, Leaf.treePath, List.foldl_nil]
    show [(treePath, _)] = [(treePath ++ "", _)]
    rw [String.append_empty]
  | object fields => exact treeFields_texts fields treePath dotted
termination_by structural element

/-- The index fields of a level have the texts of its leaves. -/
theorem treeFields_texts (fields : List (String × Field)) (treePath dotted : String) :
    (treeFields treePath dotted fields).map fieldTexts =
      (fieldsLeaves fields).map (Leaf.texts treePath dotted) := by
  cases fields with
  | nil => rfl
  | cons first rest =>
    obtain ⟨name, kind, optional, sortable, indexed, default⟩ := first
    rw [treeFields, fieldsLeaves, List.map_append, List.map_append, treeFields_texts rest]
    refine congrArg (· ++ _) ?_
    cases indexed with
    | false => rfl
    | true =>
      have hsegments := segments_namePath_append dotted name
      rw [if_pos rfl, if_pos rfl, treeKind_texts kind, String.append_assoc,
        map_below_texts (.member name) hsegments]
      rfl
termination_by structural fields

end

/-! ## Membership -/

/-- The leaves of a level are those of its indexed fields, below their names. -/
theorem mem_fieldsLeaves {fields : List (String × Field)} {leaf : Leaf} :
    leaf ∈ fieldsLeaves fields ↔ ∃ name field inner, (name, field) ∈ fields ∧
      field.indexed = true ∧ inner ∈ kindLeaves field.kind ∧
        leaf = inner.below (.member name) := by
  induction fields with
  | nil => simp [fieldsLeaves]
  | cons first rest ih =>
    obtain ⟨name, kind, optional, sortable, indexed, default⟩ := first
    rw [fieldsLeaves, List.mem_append, ih]
    constructor
    · rintro (hhere | ⟨name', field, inner, hmem, hrest⟩)
      · split at hhere
        · rename_i hindexed
          obtain ⟨inner, hinner, rfl⟩ := List.mem_map.1 hhere
          exact ⟨name, _, inner, List.mem_cons_self, hindexed, hinner, rfl⟩
        · cases hhere
      · exact ⟨name', field, inner, List.mem_cons_of_mem _ hmem, hrest⟩
    · rintro ⟨name', field, inner, hmem, hindexed, hinner, rfl⟩
      rcases List.mem_cons.1 hmem with heq | hmem
      · obtain ⟨rfl, rfl⟩ := Prod.mk.inj heq
        obtain rfl : indexed = true := hindexed
        exact Or.inl (List.mem_map_of_mem hinner)
      · exact Or.inr ⟨name', field, inner, hmem, hindexed, hinner, rfl⟩

/-- The leaves of a tuple are those of its positions, below their numbers. -/
theorem mem_positionsLeaves {positions : List Element} {start : Nat} {leaf : Leaf} :
    leaf ∈ positionsLeaves start positions ↔ ∃ index element inner,
      positions[index]? = some element ∧ inner ∈ elementLeaves element ∧
        leaf = inner.below (.position (start + index)) := by
  induction positions generalizing start with
  | nil => simp [positionsLeaves]
  | cons first rest ih =>
    rw [positionsLeaves, List.mem_append, ih]
    constructor
    · rintro (hhere | ⟨index, element, inner, hget, hinner, rfl⟩)
      · obtain ⟨inner, hinner, rfl⟩ := List.mem_map.1 hhere
        exact ⟨0, first, inner, rfl, hinner, rfl⟩
      · refine ⟨index + 1, element, inner, hget, hinner, ?_⟩
        rw [Nat.add_right_comm, Nat.add_assoc]
    · rintro ⟨index, element, inner, hget, hinner, rfl⟩
      cases index with
      | zero =>
        obtain rfl := Option.some.inj hget
        exact Or.inl (List.mem_map_of_mem hinner)
      | succ index =>
        refine Or.inr ⟨index, element, inner, hget, hinner, ?_⟩
        rw [Nat.add_right_comm, Nat.add_assoc]

/-- Only a place that can be searched is a leaf of its own. -/
theorem mem_leaves_nil {place target : Place} :
    ⟨[], target⟩ ∈ leaves place ↔ target = place ∧ (place.family? .json).isSome = true := by
  -- Objects and tuples have leaves below them only, and an array of objects has none at all.
  have hclosed : ∀ {found : List Leaf} {closed : Place}, ⟨[], target⟩ ∉ found →
      closed.family? .json = none →
      (⟨[], target⟩ ∈ found ↔ target = closed ∧ (closed.family? .json).isSome = true) := by
    intro found closed hfound hfamily
    simp [hfamily, hfound]
  have hfields : ∀ fields : List (String × Field), ⟨[], target⟩ ∉ fieldsLeaves fields := by
    intro fields h
    obtain ⟨_, _, _, _, _, _, heq⟩ := mem_fieldsLeaves.1 h
    cases heq
  have hleaf : ∀ {leafPlace : Place}, (leafPlace.family? .json).isSome = true →
      (⟨[], target⟩ ∈ [Leaf.mk [] leafPlace] ↔
        target = leafPlace ∧ (leafPlace.family? .json).isSome = true) := by
    intro leafPlace hfamily
    simp [hfamily]
  cases place with
  | level fields => exact hclosed (hfields fields) rfl
  | position kind =>
    refine hleaf ?_
    rfl
  | field kind =>
    cases kind with
    | object fields => exact hclosed (hfields fields) rfl
    | tuple positions =>
      refine hclosed ?_ rfl
      intro h
      obtain ⟨_, _, _, _, _, heq⟩ := mem_positionsLeaves.1 h
      cases heq
    | array element separator =>
      cases element with
      | object fields => exact hclosed (fun h => nomatch h) rfl
      | scalar kind =>
        refine hleaf ?_
        rfl
    | _ =>
      refine hleaf ?_
      rfl

/-- A leaf seen from one step above has that step in front of its location. -/
theorem below_eq_iff {step step' : Step} {location : List Step} {target : Place} {inner : Leaf} :
    ⟨step :: location, target⟩ = inner.below step' ↔ step = step' ∧ inner = ⟨location, target⟩ := by
  constructor
  · intro h
    obtain ⟨hlocation, rfl⟩ := Leaf.mk.inj h
    obtain ⟨rfl, rfl⟩ := List.cons.inj hlocation
    exact ⟨rfl, rfl⟩
  · rintro ⟨rfl, rfl⟩
    rfl

/-- A leaf of a level is reached by a step to a field and a leaf of that. -/
theorem mem_fieldsLeaves_cons {fields : Entries Field} (hfields : Entries.Ordered fields)
    {step : Step} {location : List Step} {target : Place} :
    ⟨step :: location, target⟩ ∈ fieldsLeaves fields ↔
      ∃ next, (Place.level fields).next? step = some next ∧ ⟨location, target⟩ ∈ leaves next := by
  rw [mem_fieldsLeaves]
  constructor
  · rintro ⟨name, field, inner, hmem, hindexed, hinner, heq⟩
    obtain ⟨rfl, rfl⟩ := below_eq_iff.1 heq
    have hget := hfields.distinct.get?_of_mem hmem
    exact ⟨.field field.kind, Place.member?_eq_some_iff.2 ⟨field, hget, hindexed, rfl⟩, hinner⟩
  · rintro ⟨next, hnext, hmem⟩
    cases step with
    | position index => cases hnext
    | member name =>
      obtain ⟨field, hget, hindexed, rfl⟩ := Place.member?_eq_some_iff.1 hnext
      exact ⟨name, field, _, Entries.mem_of_get? hget, hindexed, hmem, below_eq_iff.2 ⟨rfl, rfl⟩⟩

/-- A leaf of a tuple is reached by a step to a position and a leaf of that. -/
theorem mem_positionsLeaves_cons {positions : List Element} {step : Step} {location : List Step}
    {target : Place} :
    ⟨step :: location, target⟩ ∈ positionsLeaves 0 positions ↔
      ∃ next, (Place.field (.tuple positions)).next? step = some next ∧
        ⟨location, target⟩ ∈ leaves next := by
  rw [mem_positionsLeaves]
  constructor
  · rintro ⟨index, element, inner, hget, hinner, heq⟩
    obtain ⟨rfl, rfl⟩ := below_eq_iff.1 heq
    rw [elementLeaves_eq] at hinner
    refine ⟨.ofElement element, ?_, hinner⟩
    rw [Nat.zero_add, Place.next?, hget, Option.map_some]
  · rintro ⟨next, hnext, hmem⟩
    cases step with
    | member name => cases hnext
    | position index =>
      obtain ⟨element, hget, rfl⟩ := Option.map_eq_some_iff.1 hnext
      rw [← elementLeaves_eq] at hmem
      refine ⟨index, element, _, hget, hmem, below_eq_iff.2 ⟨?_, rfl⟩⟩
      rw [Nat.zero_add]

/-- The leaves one step down are those of the place there. -/
theorem mem_leaves_cons {place : Place} (hplace : place.Resolved) {step : Step}
    {location : List Step} {target : Place} :
    ⟨step :: location, target⟩ ∈ leaves place ↔
      ∃ next, place.next? step = some next ∧ ⟨location, target⟩ ∈ leaves next := by
  have hclosed : ∀ leafPlace : Place, (∀ step, leafPlace.next? step = none) →
      (⟨step :: location, target⟩ ∈ [Leaf.mk [] leafPlace] ↔
        ∃ next, leafPlace.next? step = some next ∧ ⟨location, target⟩ ∈ leaves next) := by
    intro leafPlace hnone
    simp [hnone]
  cases place with
  | level fields => exact mem_fieldsLeaves_cons hplace.1
  | position kind =>
    refine hclosed (.position kind) ?_
    intro step
    cases step <;> rfl
  | field kind =>
    obtain ⟨indexed, hkind⟩ := hplace
    cases kind with
    | object fields =>
      have hlevel : (Place.field (.object fields)).next? step =
          (Place.level fields).next? step := by cases step <;> rfl
      rw [hlevel]
      exact mem_fieldsLeaves_cons hkind.1
    | tuple positions => exact mem_positionsLeaves_cons
    | array element separator =>
      have hnone : ∀ step, (Place.field (.array element separator)).next? step = none := by
        intro step
        cases step <;> rfl
      cases element with
      | scalar kind => exact hclosed _ hnone
      | object fields =>
        rw [hnone]
        simp [leaves, kindLeaves]
    | _ =>
      refine hclosed (.field _) ?_
      intro step
      cases step <;> rfl

/-- The leaves of a place are the locations with something to search at their end. -/
theorem mem_leaves {place : Place} (hplace : place.Resolved) {leaf : Leaf} :
    leaf ∈ leaves place ↔
      place.at? leaf.location = some leaf.place ∧ (leaf.place.family? .json).isSome = true := by
  obtain ⟨location, target⟩ := leaf
  induction location generalizing place with
  | nil =>
    rw [mem_leaves_nil]
    constructor
    · rintro ⟨rfl, hfamily⟩
      exact ⟨rfl, hfamily⟩
    · rintro ⟨hat, hfamily⟩
      obtain rfl := Option.some.inj hat
      exact ⟨rfl, hfamily⟩
  | cons step rest ih =>
    rw [mem_leaves_cons hplace, Place.at?_cons, Option.bind_eq_some_iff]
    constructor
    · rintro ⟨next, hnext, hmem⟩
      obtain ⟨hat, hfamily⟩ := (ih (hplace.next hnext)).1 hmem
      exact ⟨⟨next, hnext, hat⟩, hfamily⟩
    · rintro ⟨⟨next, hnext, hat⟩, hfamily⟩
      exact ⟨next, hnext, (ih (hplace.next hnext)).2 ⟨hat, hfamily⟩⟩

/-! ## No location twice -/

/-- Locations stay distinct when one step is put in front of all. -/
theorem nodup_below {found : List Leaf} (h : (found.map Leaf.location).Nodup) (step : Step) :
    ((found.map (Leaf.below step)).map Leaf.location).Nodup := by
  have hmap : (found.map (Leaf.below step)).map Leaf.location =
      (found.map Leaf.location).map (List.cons step) := by
    rw [List.map_map, List.map_map]
    rfl
  rw [hmap]
  exact h.map fun _ _ heq => (List.cons.inj heq).2

/-- Leaves below one step and leaves below others have no location in common. -/
theorem nodup_append {found others : List Leaf} {step : Step}
    (hfound : (found.map Leaf.location).Nodup) (hothers : (others.map Leaf.location).Nodup)
    (hstep : ∀ leaf ∈ others, leaf.location.head? ≠ some step) :
    ((found.map (Leaf.below step) ++ others).map Leaf.location).Nodup := by
  rw [List.map_append]
  refine List.nodup_append.2 ⟨nodup_below hfound step, hothers, ?_⟩
  -- A location on both sides would begin with the step and not begin with it.
  rintro location hhere other hother rfl
  obtain ⟨inner, hinner, hlocation⟩ := List.mem_map.1 hhere
  obtain ⟨below, _, rfl⟩ := List.mem_map.1 hinner
  obtain ⟨leaf, hleaf, rfl⟩ := List.mem_map.1 hother
  refine hstep leaf hleaf ?_
  rw [← hlocation]
  rfl

mutual

/-- No two leaves of a kind are at one location. -/
theorem nodup_kindLeaves (kind : Kind) {indexed : Bool} (h : kind.Resolved indexed) :
    ((kindLeaves kind).map Leaf.location).Nodup := by
  cases kind with
  | object fields => exact nodup_fieldsLeaves fields h.1 h.2
  | tuple positions => exact nodup_positionsLeaves positions h.2.2 0
  | array element separator =>
    cases element with
    | scalar kind => exact List.nodup_singleton _
    | object fields => exact List.nodup_nil
  | _ => exact List.nodup_singleton _
termination_by structural kind

/-- No two leaves of the positions of a tuple are at one location. -/
theorem nodup_positionsLeaves (positions : List Element) {indexed : Bool}
    (h : positionsResolved indexed positions) (start : Nat) :
    ((positionsLeaves start positions).map Leaf.location).Nodup := by
  cases positions with
  | nil => exact List.nodup_nil
  | cons element rest =>
    refine nodup_append (nodup_elementLeaves element h.1)
      (nodup_positionsLeaves rest h.2 (start + 1)) ?_
    intro leaf hleaf hhead
    obtain ⟨index, _, inner, _, _, rfl⟩ := mem_positionsLeaves.1 hleaf
    have hindex := Step.position.inj (Option.some.inj hhead)
    omega
termination_by structural positions

/-- No two leaves of an element are at one location. -/
theorem nodup_elementLeaves (element : Element) {indexed : Bool} (h : element.Resolved indexed) :
    ((elementLeaves element).map Leaf.location).Nodup := by
  cases element with
  | scalar kind => exact List.nodup_singleton _
  | object fields => exact nodup_fieldsLeaves fields h.1 h.2
termination_by structural element

/-- No two leaves of a level are at one location. -/
theorem nodup_fieldsLeaves (fields : List (String × Field)) {inherited : Bool}
    (hordered : Entries.Ordered fields) (h : fieldsResolved inherited fields) :
    ((fieldsLeaves fields).map Leaf.location).Nodup := by
  cases fields with
  | nil => exact List.nodup_nil
  | cons first rest =>
    obtain ⟨name, kind, optional, sortable, indexed, default⟩ := first
    have hrest := nodup_fieldsLeaves rest hordered.tail h.2.2
    rw [fieldsLeaves]
    cases indexed with
    | false => exact hrest
    | true =>
      refine nodup_append (nodup_kindLeaves kind h.2.1.2.2.1) hrest ?_
      intro leaf hleaf hhead
      obtain ⟨other, field, inner, hmem, _, _, rfl⟩ := mem_fieldsLeaves.1 hleaf
      obtain rfl := Step.member.inj (Option.some.inj hhead)
      exact (List.pairwise_cons.1 hordered.distinct).1 _ hmem rfl
termination_by structural fields

end

end DocumentSchema.Index
