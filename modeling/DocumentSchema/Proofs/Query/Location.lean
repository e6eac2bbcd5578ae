import DocumentSchema.Proofs.Query.Path
import DocumentSchema.Proofs.Schema.Occurrences

/-!
# Locations in a schema

A location leads step by step from the fields of a schema to a field or a position below them: by a
name into an object, by an index into a tuple, and through indexed fields only (`Place.at?`). A path
spells a location segment by segment, a position by any text that is read as its index, so that one
location may have several spellings (`Place.reach?_eq_some_iff`).
-/

set_option autoImplicit false

namespace DocumentSchema.Query

/-- A step of a location: to a field of an object or to a position of a tuple. -/
inductive Step where
  | member (name : String)
  | position (index : Nat)
deriving DecidableEq

/-- The segment that an index writes for a step. -/
def Step.text : Step → String
  | .member name => name
  | .position index => Decimal.natText index

/-- A step in the path of an index field of trees. -/
def Step.treeText : Step → String
  | .member name => "." ++ name
  | .position index => "[" ++ Decimal.natText index ++ "]"

/-- The steps that a segment of a path can stand for. -/
def Step.SpelledBy (segment : String) : Step → Prop
  | .member name => segment = name
  | .position index => Decimal.readCount? segment.toList = some index

namespace Place

/-- The field of a name, if an index has it. -/
def member? (fields : Entries Field) (name : String) : Option Place :=
  (fields.get? name).bind fun found =>
    if found.indexed then some (.field found.kind) else none

/-- The place one step further, if there is one. -/
def next? : Place → Step → Option Place
  | .level fields, .member name => member? fields name
  | .field (.object fields), .member name => member? fields name
  | .field (.tuple positions), .position index => positions[index]?.map ofElement
  | _, _ => none

/-- The place at the end of a location, if it leads to one. -/
def at? (place : Place) (location : List Step) : Option Place :=
  location.foldlM next? place

/-- A location is followed from its first step on. -/
theorem at?_cons (place : Place) (step : Step) (rest : List Step) :
    place.at? (step :: rest) = (place.next? step).bind fun next => next.at? rest :=
  List.foldlM_cons ..

/-! ## Steps -/

/-- A member is found exactly at an indexed field of its name. -/
theorem member?_eq_some_iff {fields : Entries Field} {name : String} {next : Place} :
    member? fields name = some next ↔
      ∃ found, fields.get? name = some found ∧ found.indexed = true ∧ next = .field found.kind := by
  rw [member?, Option.bind_eq_some_iff]
  constructor
  · rintro ⟨found, hget, hnext⟩
    split at hnext
    · rename_i hindexed
      exact ⟨found, hget, hindexed, (Option.some.inj hnext).symm⟩
    · cases hnext
  · rintro ⟨found, hget, hindexed, rfl⟩
    exact ⟨found, hget, if_pos hindexed⟩

/-- At a level a segment is the name of a member. -/
theorem step?_eq_member? (fields : Entries Field) (segment : String) :
    (level fields).step? segment = member? fields segment := by
  cases hget : fields.get? segment with
  | none =>
    rw [step?, descend, member, member?, hget]
    rfl
  | some found => rw [step?_level hget, member?, hget, Option.bind_some]

/-- In a tuple a segment is the number of a position. -/
theorem step?_eq_position? (positions : List Element) (segment : String) :
    (field (.tuple positions)).step? segment =
      (Decimal.readCount? segment.toList).bind fun index => positions[index]?.map ofElement := by
  rw [step?, descend]
  cases Decimal.readCount? segment.toList with
  | none => rfl
  | some index =>
    rw [Option.bind_some]
    dsimp only
    cases positions[index]? with
    | none => rfl
    | some element => cases element <;> rfl

/-- Where steps are as at a level, a segment spells a step to the member of its name. -/
theorem exists_member_iff {fields : Entries Field} {segment : String} {place next : Place}
    (hplace : ∀ step, place.next? step = (level fields).next? step) :
    (∃ step : Step, step.SpelledBy segment ∧ place.next? step = some next) ↔
      member? fields segment = some next := by
  constructor
  · rintro ⟨step, hspelled, h⟩
    rw [hplace] at h
    cases step with
    | member name =>
      rw [Step.SpelledBy] at hspelled
      rw [hspelled]
      exact h
    | position index => cases h
  · intro h
    exact ⟨.member segment, rfl, (hplace _).trans h⟩

/-- A segment leads on by the steps that it can stand for. -/
theorem step?_eq_some_iff {place next : Place} {segment : String} :
    place.step? segment = some next ↔
      ∃ step : Step, step.SpelledBy segment ∧ place.next? step = some next := by
  have hnone : place.step? segment = none → (∀ step, place.next? step = none) →
      (place.step? segment = some next ↔
        ∃ step : Step, step.SpelledBy segment ∧ place.next? step = some next) := by
    intro hstep hnext
    simp [hstep, hnext]
  cases place with
  | level fields => rw [step?_eq_member?, exists_member_iff fun _ => rfl]
  | position kind => exact hnone rfl fun step => by cases step <;> rfl
  | field kind =>
    cases kind with
    | object fields =>
      have hlevel : (field (.object fields)).step? segment = (level fields).step? segment := rfl
      rw [hlevel, step?_eq_member?, exists_member_iff fun step => by cases step <;> rfl]
    | tuple positions =>
      rw [step?_eq_position?, Option.bind_eq_some_iff]
      constructor
      · rintro ⟨index, hread, h⟩
        exact ⟨.position index, hread, h⟩
      · rintro ⟨step, hspelled, h⟩
        cases step with
        | member name => cases h
        | position index => exact ⟨index, hspelled, h⟩
    | _ => exact hnone rfl fun step => by cases step <;> rfl

/-- The segments of a path lead where the locations that they spell lead. -/
theorem reach?_eq_some_iff {place target : Place} {segments : List String} :
    place.reach? segments = some target ↔
      ∃ location, List.Forall₂ Step.SpelledBy segments location ∧
        place.at? location = some target := by
  induction segments generalizing place with
  | nil =>
    constructor
    · intro h
      exact ⟨[], List.Forall₂.nil, h⟩
    · rintro ⟨location, hspelled, h⟩
      cases hspelled
      exact h
  | cons segment rest ih =>
    rw [reach?, List.foldlM_cons]
    show Option.bind _ _ = _ ↔ _
    rw [Option.bind_eq_some_iff]
    constructor
    · rintro ⟨next, hstep, hrest⟩
      obtain ⟨step, hspelled, hnext⟩ := step?_eq_some_iff.1 hstep
      obtain ⟨location, hlocation, hat⟩ := ih.1 hrest
      refine ⟨step :: location, List.Forall₂.cons hspelled hlocation, ?_⟩
      rw [at?_cons, hnext]
      exact hat
    · rintro ⟨location, hspelled, h⟩
      cases hspelled with
      | cons hstep hlocation =>
        rw [at?_cons] at h
        obtain ⟨next, hnext, hat⟩ := Option.bind_eq_some_iff.1 h
        exact ⟨next, step?_eq_some_iff.2 ⟨_, hstep, hnext⟩, ih.2 ⟨_, hlocation, hat⟩⟩

/-- Only a tuple has positions. -/
theorem exists_of_next?_position {place next : Place} {index : Nat}
    (h : place.next? (.position index) = some next) :
    ∃ positions, place = .field (.tuple positions) := by
  cases place with
  | level fields => cases h
  | position kind => cases h
  | field kind =>
    cases kind with
    | tuple positions => exact ⟨positions, rfl⟩
    | _ => cases h

/-- A segment stands for one step of a place. -/
theorem eq_of_spelledBy {place next next' : Place} {segment : String} {step step' : Step}
    (hspelled : step.SpelledBy segment) (hspelled' : step'.SpelledBy segment)
    (hnext : place.next? step = some next) (hnext' : place.next? step' = some next') :
    step = step' := by
  cases step with
  | member name =>
    cases step' with
    | member name' =>
      have hname : segment = name := hspelled
      have hname' : segment = name' := hspelled'
      rw [← hname, hname']
    | position index' =>
      obtain ⟨positions, rfl⟩ := exists_of_next?_position hnext'
      cases hnext
  | position index =>
    obtain ⟨positions, rfl⟩ := exists_of_next?_position hnext
    cases step' with
    | member name' => cases hnext'
    | position index' =>
      have hindex := Eq.trans (Eq.symm hspelled) hspelled'
      rw [Option.some.inj hindex]

/-! ## What holds along a location -/

/-- The invariant of resolved fields at a place. -/
def Resolved : Place → Prop
  | .level fields => Entries.Ordered fields ∧ ∃ inherited, fieldsResolved inherited fields
  | .field kind => ∃ indexed, kind.Resolved indexed
  | .position _ => True

/-- A member of a resolved level is resolved. -/
theorem Resolved.member {fields : Entries Field} (h : (level fields).Resolved) {name : String}
    {next : Place} (hnext : member? fields name = some next) : next.Resolved := by
  obtain ⟨_, inherited, hfields⟩ := h
  obtain ⟨found, hget, _, rfl⟩ := member?_eq_some_iff.1 hnext
  have hfound := fieldResolved_of_mem hfields _ (Entries.mem_of_get? hget)
  obtain ⟨kind, optional, sortable, indexed, default⟩ := found
  exact ⟨indexed, hfound.2.2.1⟩

/-- A step keeps the invariant. -/
theorem Resolved.next {place next : Place} (h : place.Resolved) {step : Step}
    (hnext : place.next? step = some next) : next.Resolved := by
  cases place with
  | level fields =>
    cases step with
    | member name => exact h.member hnext
    | position index => cases hnext
  | position kind => cases step <;> cases hnext
  | field kind =>
    obtain ⟨indexed, hkind⟩ := h
    cases kind with
    | object fields =>
      cases step with
      | member name =>
        have hlevel : (level fields).Resolved := ⟨hkind.1, indexed, hkind.2⟩
        exact hlevel.member hnext
      | position index => cases hnext
    | tuple positions =>
      cases step with
      | member name => cases hnext
      | position index =>
        obtain ⟨element, hget, rfl⟩ := Option.map_eq_some_iff.1 hnext
        have helement := elementResolved_of_mem hkind.2.2 element (List.mem_of_getElem? hget)
        cases element with
        | scalar kind => exact trivial
        | object fields => exact ⟨helement.1, indexed, helement.2⟩
    | _ => cases step <;> cases hnext

/-- A location is spelled by the segments that an index writes for it. -/
theorem Resolved.spelledBy_text {place target : Place} (h : place.Resolved) {location : List Step}
    (hat : place.at? location = some target) :
    List.Forall₂ Step.SpelledBy (location.map Step.text) location := by
  induction location generalizing place with
  | nil => exact List.Forall₂.nil
  | cons step rest ih =>
    rw [at?_cons] at hat
    obtain ⟨next, hnext, hat⟩ := Option.bind_eq_some_iff.1 hat
    refine List.Forall₂.cons ?_ (ih (h.next hnext) hat)
    cases step with
    | member name => rfl
    | position index =>
      obtain ⟨positions, rfl⟩ := exists_of_next?_position hnext
      obtain ⟨_, _, hcount, _⟩ := h
      obtain ⟨element, hget, _⟩ := Option.map_eq_some_iff.1 hnext
      obtain ⟨hindex, _⟩ := List.getElem?_eq_some_iff.1 hget
      exact Decimal.readCount?_natText (Nat.lt_trans hindex hcount)

/-- The fields below a place. -/
def occurrences (path : String) : Place → List Occurrence
  | .level fields => fieldsOccurrences path fields
  | .field kind => kind.occurrences path
  | .position _ => []

/-- What holds of the names of all fields below a place. -/
def Named (p : String → Prop) (place : Place) : Prop :=
  ∃ path, ∀ o ∈ place.occurrences path, p o.name

/-- What occurs in a field occurs in its level. -/
theorem mem_fieldsOccurrences {fields : Entries Field} {name : String} {field : Field}
    (h : (name, field) ∈ fields) (above : String) {o : Occurrence}
    (ho : o ∈ field.occurrences (above ++ "." ++ name) name) :
    o ∈ fieldsOccurrences above fields := by
  induction fields with
  | nil => cases h
  | cons first rest ih =>
    rcases List.mem_cons.1 h with rfl | h
    · exact List.mem_append_left _ ho
    · exact List.mem_append_right _ (ih h)

/-- What occurs in a position occurs in its tuple. -/
theorem mem_positionsOccurrences {positions : List Element} {index : Nat} {element : Element}
    (h : positions[index]? = some element) (path : String) (start : Nat) {o : Occurrence}
    (ho : o ∈ element.occurrences (path ++ "." ++ Decimal.natText (start + index))) :
    o ∈ positionsOccurrences path start positions := by
  induction positions generalizing index start with
  | nil => cases h
  | cons first rest ih =>
    cases index with
    | zero =>
      obtain rfl := Option.some.inj h
      exact List.mem_append_left _ ho
    | succ index =>
      refine List.mem_append_right _ (ih h (start + 1) ?_)
      rw [Nat.add_right_comm]
      exact ho

variable {p : String → Prop}

/-- A member of a level with such names has such a name and such names inside. -/
theorem Named.member {fields : Entries Field} (h : (level fields).Named p) {name : String}
    {next : Place} (hnext : member? fields name = some next) : p name ∧ next.Named p := by
  obtain ⟨path, hall⟩ := h
  obtain ⟨found, hget, _, rfl⟩ := member?_eq_some_iff.1 hnext
  have hmem := Entries.mem_of_get? hget
  obtain ⟨kind, optional, sortable, indexed, default⟩ := found
  refine ⟨hall _ (mem_fieldsOccurrences hmem path List.mem_cons_self), path ++ "." ++ name, ?_⟩
  intro o ho
  exact hall o (mem_fieldsOccurrences hmem path (List.mem_cons_of_mem _ ho))

/-- What holds of all names holds of that of a step, and below it. -/
theorem Named.next {place next : Place} (h : place.Named p) {step : Step}
    (hnext : place.next? step = some next) :
    (∀ name, step = .member name → p name) ∧ next.Named p := by
  cases step with
  | member name =>
    have hmember : p name ∧ next.Named p := by
      cases place with
      | level fields => exact h.member hnext
      | position kind => cases hnext
      | field kind =>
        cases kind with
        | object fields =>
          have hlevel : (level fields).Named p := h
          exact hlevel.member hnext
        | _ => cases hnext
    refine ⟨?_, hmember.2⟩
    rintro _ ⟨⟩
    exact hmember.1
  | position index =>
    refine ⟨fun name hname => (nomatch hname), ?_⟩
    obtain ⟨positions, rfl⟩ := exists_of_next?_position hnext
    obtain ⟨path, hall⟩ := h
    obtain ⟨element, hget, rfl⟩ := Option.map_eq_some_iff.1 hnext
    refine ⟨path ++ "." ++ Decimal.natText (0 + index), ?_⟩
    intro o ho
    refine hall o (mem_positionsOccurrences hget path 0 ?_)
    cases element with
    | scalar kind => cases ho
    | object fields => exact ho

/-- What holds of all names holds of those of a location. -/
theorem Named.names {place target : Place} (h : place.Named p) {location : List Step}
    (hat : place.at? location = some target) : ∀ name, .member name ∈ location → p name := by
  induction location generalizing place with
  | nil =>
    intro name hname
    cases hname
  | cons step rest ih =>
    rw [at?_cons] at hat
    obtain ⟨next, hnext, hat⟩ := Option.bind_eq_some_iff.1 hat
    obtain ⟨hstep, hbelow⟩ := h.next hnext
    intro name hname
    rcases List.mem_cons.1 hname with hhere | hname
    · exact hstep name hhere.symm
    · exact ih hbelow hat name hname

end Place

end DocumentSchema.Query
