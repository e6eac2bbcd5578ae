import DocumentSchema.Proofs.Index.Leaves
import Mathlib.Data.List.Nodup

/-!
# Names of index fields

An index of hashes names its fields as the schema does. An index of trees joins the segments of a
location with underscores, and a name may hold underscores too, so that two locations can come to one
name. They do not where no field continues the name of an object or a tuple beside it with an
underscore (`fieldsApart`): there the location can be told from the joined name
(`location_eq_of_underscored`), in whichever spelling its positions are.
-/

set_option autoImplicit false

namespace DocumentSchema.Index

open Query

/-! ## Joined segments -/

/-- Segments with an underscore in front of each. -/
def underscored (segments : List String) : List Char := segments.flatMap fun s => '_' :: s.toList

/-- Names joined by underscores are the first and then each other behind an underscore. -/
theorem toList_joined (first : String) (rest : List String) :
    (String.intercalate "_" (first :: rest)).toList = first.toList ++ underscored rest := by
  induction rest generalizing first with
  | nil => simp [underscored]
  | cons next rest ih =>
    rw [String.intercalate_cons_cons, String.toList_append, String.toList_append, ih]
    simp [underscored]

/-- Joined names are one text exactly if they are with underscores in front. -/
theorem joined_inj_iff {segments others : List String} (hsegments : segments ≠ [])
    (hothers : others ≠ []) :
    String.intercalate "_" segments = String.intercalate "_" others ↔
      underscored segments = underscored others := by
  obtain ⟨first, rest, rfl⟩ := List.exists_cons_of_ne_nil hsegments
  obtain ⟨other, more, rfl⟩ := List.exists_cons_of_ne_nil hothers
  rw [← String.toList_inj, toList_joined, toList_joined]
  simp [underscored]

/-- What stands in front of more segments is all of it or goes on with an underscore. -/
theorem continues_of_append (here : List Char) {front more : List Char} {rest : List String}
    (h : underscored rest = front ++ more) :
    front = [] ∨ rest ≠ [] ∧ here ++ ['_'] <+: here ++ front := by
  cases front with
  | nil => exact Or.inl rfl
  | cons c front =>
    cases rest with
    | nil => cases h
    | cons segment rest =>
      have hc : '_' = c := (List.cons.inj h).1
      refine Or.inr ⟨List.cons_ne_nil _ _, front, ?_⟩
      rw [hc, List.append_assoc, List.singleton_append]

/-- Of two joined names, the first segments agree or one continues the other. -/
theorem first_cases {here there : List Char} {rest others : List String}
    (h : here ++ underscored rest = there ++ underscored others) :
    (here = there ∧ underscored rest = underscored others) ∨
      (rest ≠ [] ∧ here ++ ['_'] <+: there) ∨ (others ≠ [] ∧ there ++ ['_'] <+: here) := by
  rcases List.append_eq_append_iff.1 h with ⟨front, rfl, hrest⟩ | ⟨front, rfl, hothers⟩
  · rcases continues_of_append here hrest with rfl | hcontinues
    · exact Or.inl ⟨(List.append_nil here).symm, hrest⟩
    · exact Or.inr (Or.inl hcontinues)
  · rcases continues_of_append there hothers with rfl | hcontinues
    · exact Or.inl ⟨List.append_nil there, hothers.symm⟩
    · exact Or.inr (Or.inr hcontinues)

/-! ## Names that do not continue others -/

/-- Whether a kind has fields or positions below it that an index may have. -/
def isNested : Kind → Bool
  | .object _ => true
  | .tuple _ => true
  | _ => false

/-- No indexed field of a level continues the name of an object or a tuple beside it with an
underscore. -/
def LevelApart (fields : Entries Field) : Prop :=
  ∀ e ∈ fields, e.2.indexed = true → isNested e.2.kind = true →
    ∀ other ∈ fields, other.2.indexed = true → ¬ e.1.toList ++ ['_'] <+: other.1.toList

instance (fields : Entries Field) : Decidable (LevelApart fields) :=
  inferInstanceAs (Decidable (∀ e ∈ fields, e.2.indexed = true → isNested e.2.kind = true →
    ∀ other ∈ fields, other.2.indexed = true → ¬ e.1.toList ++ ['_'] <+: other.1.toList))

mutual

/-- The names are apart at every level inside a kind. -/
def kindApart : Kind → Prop
  | .object fields => LevelApart fields ∧ fieldsApart fields
  | .tuple positions => positionsApart positions
  | _ => True
termination_by structural kind => kind

/-- The same for every position of a tuple. -/
def positionsApart : List Element → Prop
  | [] => True
  | element :: rest => elementApart element ∧ positionsApart rest
termination_by structural elements => elements

/-- The same for an element. -/
def elementApart : Element → Prop
  | .scalar _ => True
  | .object fields => LevelApart fields ∧ fieldsApart fields
termination_by structural element => element

/-- The names are apart at every level below some fields. -/
def fieldsApart : List (String × Field) → Prop
  | [] => True
  | (_, .mk kind _ _ indexed _) :: rest => (indexed = true → kindApart kind) ∧ fieldsApart rest
termination_by structural fields => fields

end

/-- The names are apart at a place and at every level below it. -/
def PlaceApart : Place → Prop
  | .level fields => LevelApart fields ∧ fieldsApart fields
  | .field kind => kindApart kind
  | .position _ => True

/-- The names are apart below every indexed field of a level where they are. -/
theorem kindApart_of_mem {fields : List (String × Field)} (h : fieldsApart fields) :
    ∀ e ∈ fields, e.2.indexed = true → kindApart e.2.kind := by
  refine forall_mem_of_cons ?_ h
  rintro ⟨name, kind, optional, sortable, indexed, default⟩ rest h
  exact h

/-- The names are apart below every position of a tuple where they are. -/
theorem elementApart_of_mem {positions : List Element} (h : positionsApart positions) :
    ∀ element ∈ positions, elementApart element :=
  forall_mem_of_cons (fun _ _ h => h) h

/-- A step to a member goes from the fields of a level. -/
theorem exists_of_next?_member {place next : Place} {name : String}
    (h : place.next? (.member name) = some next) (hplace : PlaceApart place) :
    ∃ fields, LevelApart fields ∧ fieldsApart fields ∧
      ∀ step, place.next? step = (Place.level fields).next? step := by
  cases place with
  | level fields => exact ⟨fields, hplace.1, hplace.2, fun _ => rfl⟩
  | position kind => cases h
  | field kind =>
    cases kind with
    | object fields =>
      refine ⟨fields, hplace.1, hplace.2, ?_⟩
      intro step
      cases step <;> rfl
    | _ => cases h

/-- Names that are apart at a place are apart one step further. -/
theorem placeApart_next {place next : Place} (hplace : PlaceApart place) {step : Step}
    (hnext : place.next? step = some next) : PlaceApart next := by
  cases step with
  | member name =>
    obtain ⟨fields, _, hfields, hlevel⟩ := exists_of_next?_member hnext hplace
    rw [hlevel] at hnext
    obtain ⟨field, hget, hindexed, rfl⟩ := Place.member?_eq_some_iff.1 hnext
    exact kindApart_of_mem hfields _ (Entries.mem_of_get? hget) hindexed
  | position index =>
    obtain ⟨positions, rfl⟩ := Place.exists_of_next?_position hnext
    obtain ⟨element, hget, rfl⟩ := Option.map_eq_some_iff.1 hnext
    have helement := elementApart_of_mem hplace element (List.mem_of_getElem? hget)
    cases element with
    | scalar kind => exact trivial
    | object fields => exact helement

/-- No spelling of a position holds an underscore. -/
theorem underscore_not_mem {segment : String} {index : Nat}
    (h : Step.SpelledBy segment (.position index)) : '_' ∉ segment.toList := by
  intro hmem
  rcases Decimal.mem_of_readCount? h hmem with hplus | hdigit
  · exact absurd hplus (by decide)
  · exact absurd hdigit (by decide)

/-- Where names are apart, no step beside one that leads further continues its segment. -/
theorem not_continues {place next next' : Place} (hplace : PlaceApart place) {step step' : Step}
    (hnext : place.next? step = some next) (hnext' : place.next? step' = some next')
    {segment segment' : String} (hspelled : step.SpelledBy segment)
    (hspelled' : step'.SpelledBy segment') {further : Step} {below : Place}
    (hfurther : next.next? further = some below) :
    ¬ segment.toList ++ ['_'] <+: segment'.toList := by
  intro hcontinues
  cases step' with
  | position index =>
    refine underscore_not_mem hspelled' (hcontinues.subset ?_)
    simp
  | member name' =>
    obtain ⟨fields, hlevel, _, hfields⟩ := exists_of_next?_member hnext' hplace
    rw [hfields] at hnext hnext'
    obtain rfl : segment' = name' := hspelled'
    obtain ⟨field', hget', hindexed', rfl⟩ := Place.member?_eq_some_iff.1 hnext'
    cases step with
    | position index => cases hnext
    | member name =>
      obtain rfl : segment = name := hspelled
      obtain ⟨field, hget, hindexed, rfl⟩ := Place.member?_eq_some_iff.1 hnext
      have hnested : isNested field.kind = true := by
        cases hkind : field.kind with
        | object fields => rfl
        | tuple positions => rfl
        | _ =>
          rw [hkind] at hfurther
          cases further <;> cases hfurther
      exact hlevel _ (Entries.mem_of_get? hget) hindexed hnested _ (Entries.mem_of_get? hget')
        hindexed' hcontinues

/-- A location that some segments spell begins with a step. -/
theorem exists_next? {next target : Place} {segments : List String} {location : List Step}
    (hspelled : List.Forall₂ Step.SpelledBy segments location)
    (hat : next.at? location = some target) (hne : segments ≠ []) :
    ∃ step below, next.next? step = some below := by
  cases hspelled with
  | nil => exact absurd rfl hne
  | cons _ _ =>
    rw [Place.at?_cons] at hat
    obtain ⟨below, hbelow, _⟩ := Option.bind_eq_some_iff.1 hat
    exact ⟨_, below, hbelow⟩

/-- Where names are apart, the location of a path can be told from its joined name. -/
theorem location_eq_of_underscored {place target target' : Place} (hplace : PlaceApart place)
    {segments segments' : List String} {location location' : List Step}
    (hspelled : List.Forall₂ Step.SpelledBy segments location)
    (hspelled' : List.Forall₂ Step.SpelledBy segments' location')
    (hat : place.at? location = some target) (hat' : place.at? location' = some target')
    (h : underscored segments = underscored segments') : location = location' := by
  induction hspelled generalizing place segments' location' with
  | nil =>
    cases hspelled' with
    | nil => rfl
    | cons _ _ => cases h
  | cons hstep hrest ih =>
    cases hspelled' with
    | nil => cases h
    | cons hstep' hrest' =>
      rw [Place.at?_cons] at hat hat'
      obtain ⟨next, hnext, hat⟩ := Option.bind_eq_some_iff.1 hat
      obtain ⟨next', hnext', hat'⟩ := Option.bind_eq_some_iff.1 hat'
      have hcases := first_cases (List.cons.inj h).2
      rcases hcases with ⟨hfirst, hmore⟩ | ⟨hne, hcontinues⟩ | ⟨hne, hcontinues⟩
      · obtain rfl := String.toList_inj.1 hfirst
        obtain rfl := Place.eq_of_spelledBy hstep hstep' hnext hnext'
        obtain rfl := Option.some.inj (hnext.symm.trans hnext')
        rw [ih (placeApart_next hplace hnext) hrest' hat hat' hmore]
      -- A first segment that is continued leads further, so it is an object or a tuple.
      · obtain ⟨_, _, hfurther⟩ := exists_next? hrest hat hne
        exact absurd hcontinues (not_continues hplace hnext hnext' hstep hstep' hfurther)
      · obtain ⟨_, _, hfurther⟩ := exists_next? hrest' hat' hne
        exact absurd hcontinues (not_continues hplace hnext' hnext hstep' hstep hfurther)

/-! ## The leaves of a schema -/

section Leaves

variable {schema : Schema}

/-- With plain names, the segments of a location are the texts of its steps. -/
theorem locationSegments_plain {place target : Place} (hplain : place.Named PlainName)
    {location : List Step} (hat : place.at? location = some target) :
    locationSegments location = location.map Step.text := by
  have hnames := hplain.names hat
  have hsegments : ∀ step ∈ location, segments step.text = [step.text] := by
    intro step hstep
    cases step with
    | member name => exact segments_plain (hnames name hstep)
    | position index => exact segments_plain (plainName_natText index)
  rw [locationSegments, List.flatMap_congr hsegments, ← List.map_eq_flatMap]

/-- A leaf of the top level is some steps away. -/
theorem location_ne_nil {fields : Entries Field} (hfields : (Place.level fields).Resolved)
    {leaf : Leaf} (hleaf : leaf ∈ leaves (.level fields)) : leaf.location ≠ [] := by
  obtain ⟨location, place⟩ := leaf
  rintro rfl
  obtain ⟨hat, hfamily⟩ := (mem_leaves hfields).1 hleaf
  obtain rfl := Option.some.inj hat
  cases hfamily

/-- From the top, the search name of a leaf is its segments joined by underscores. -/
theorem Leaf.searchName_root (leaf : Leaf) :
    leaf.searchName "" = String.intercalate "_" (locationSegments leaf.location) := rfl

/-- Where names are apart, a path with the joined name of a leaf is the location of the leaf. -/
theorem location_eq_of_joined {fields : Entries Field} (hfields : (Place.level fields).Resolved)
    (hapart : PlaceApart (.level fields)) {segments : List String} {location : List Step}
    {target : Place} (hspelled : List.Forall₂ Step.SpelledBy segments location)
    (hat : (Place.level fields).at? location = some target) (hne : segments ≠ []) {leaf : Leaf}
    (hleaf : leaf ∈ leaves (.level fields))
    (h : String.intercalate "_" segments = String.intercalate "_" (leaf.location.map Step.text)) :
    location = leaf.location := by
  obtain ⟨hleafAt, _⟩ := (mem_leaves hfields).1 hleaf
  have htext : leaf.location.map Step.text ≠ [] := by simpa using location_ne_nil hfields hleaf
  rw [joined_inj_iff hne htext] at h
  exact location_eq_of_underscored hapart hspelled (hfields.spelledBy_text hleafAt) hat hleafAt h

/-- Where names are plain and apart, leaves with one name have one location. -/
theorem location_eq_of_searchName (hschema : schema.Sound)
    (hplain : (Place.level schema.fields).Named PlainName)
    (hapart : PlaceApart (.level schema.fields)) {leaf other : Leaf}
    (hleaf : leaf ∈ leaves (.level schema.fields)) (hother : other ∈ leaves (.level schema.fields))
    (h : leaf.searchName "" = other.searchName "") : leaf.location = other.location := by
  have hroot := resolved_root hschema
  obtain ⟨hat, _⟩ := (mem_leaves hroot).1 hleaf
  obtain ⟨hotherAt, _⟩ := (mem_leaves hroot).1 hother
  have hne : leaf.location.map Step.text ≠ [] := by simpa using location_ne_nil hroot hleaf
  rw [Leaf.searchName_root, Leaf.searchName_root, locationSegments_plain hplain hat,
    locationSegments_plain hplain hotherAt] at h
  exact location_eq_of_joined hroot hapart (hroot.spelledBy_text hat) hat hne hother h

end Leaves

/-- The names of hashes are names of fields. -/
theorem nodup_hashFields {fields : Entries Field} (h : Entries.Ordered fields) :
    ((hashFields fields).map IndexField.searchName).Nodup := by
  have hname : ∀ {e : String × Field} {f : IndexField},
      (if e.2.indexed then
        (hashAttributes e.2.sortable e.2.kind).map fun attributes => ⟨e.1, e.1, attributes⟩
      else none) = some f → f.searchName = e.1 := by
    intro e f hf
    split at hf
    · obtain ⟨_, _, rfl⟩ := Option.map_eq_some_iff.1 hf
      rfl
    · cases hf
  refine List.pairwise_map.2 (List.Pairwise.filterMap _ ?_ h.distinct)
  intro a b hne f hf g hg
  rw [hname hf, hname hg]
  exact hne

end DocumentSchema.Index

namespace DocumentSchema

open Index

/-- No two fields of an index of hashes have one name. The names of an index of trees are the
locations of its leaves flattened: none occurs twice exactly if no two locations flatten to one name,
and so it is where names are plain and none continues that of an object or a tuple beside it. -/
theorem Schema.searchNames_nodup {schema : Schema} (hschema : schema.IsCanonical) (model : String)
    (settings : Settings) :
    (settings.storage = .hash →
      ((schema.indexDefinition model settings).fields.map IndexField.searchName).Nodup) ∧
    (settings.storage = .json →
      (schema.indexDefinition model settings).fields.map fieldTexts =
        (leaves (.level schema.fields)).map (Leaf.texts "$" "") ∧
      ((leaves (.level schema.fields)).map Leaf.location).Nodup ∧
      (((schema.indexDefinition model settings).fields.map IndexField.searchName).Nodup ↔
        ∀ leaf ∈ leaves (.level schema.fields), ∀ other ∈ leaves (.level schema.fields),
          String.intercalate "_" (locationSegments leaf.location) =
            String.intercalate "_" (locationSegments other.location) →
          leaf.location = other.location) ∧
      ((∀ o ∈ fieldsOccurrences "" schema.fields, Query.PlainName o.name) →
        LevelApart schema.fields ∧ fieldsApart schema.fields →
        ((schema.indexDefinition model settings).fields.map IndexField.searchName).Nodup)) := by
  have hsound := hschema.sound
  constructor
  · intro hstorage
    rw [Schema.indexDefinition, hstorage]
    exact nodup_hashFields hsound.ordered
  · intro hstorage
    have htexts : (schema.indexDefinition model settings).fields.map fieldTexts =
        (leaves (.level schema.fields)).map (Leaf.texts "$" "") := by
      rw [Schema.indexDefinition, hstorage]
      exact treeFields_texts schema.fields "$" ""
    have hlocations : ((leaves (.level schema.fields)).map Leaf.location).Nodup :=
      nodup_fieldsLeaves schema.fields hsound.ordered hsound.resolved
    have hnames : (schema.indexDefinition model settings).fields.map IndexField.searchName =
        (leaves (.level schema.fields)).map (Leaf.searchName "") := by
      have hsecond := congrArg (List.map Prod.snd) htexts
      rw [List.map_map, List.map_map] at hsecond
      exact hsecond
    have hiff : ((schema.indexDefinition model settings).fields.map IndexField.searchName).Nodup ↔
        ∀ leaf ∈ leaves (.level schema.fields), ∀ other ∈ leaves (.level schema.fields),
          leaf.searchName "" = other.searchName "" → leaf.location = other.location := by
      -- locations are distinct already, so a repeated name is one name for two locations
      rw [hnames, List.nodup_map_iff_inj_on hlocations.of_map]
      have hlocation := List.inj_on_of_nodup_map hlocations
      constructor
      · intro h leaf hleaf other hother hname
        rw [h leaf hleaf other hother hname]
      · intro h leaf hleaf other hother hname
        exact hlocation hleaf hother (h leaf hleaf other hother hname)
    refine ⟨htexts, hlocations, hiff, ?_⟩
    intro hplain hapart
    refine hiff.2 ?_
    intro leaf hleaf other hother hname
    exact location_eq_of_searchName hsound ⟨"", hplain⟩ hapart hleaf hother hname

/-! ## A tour -/

/-- An object with an object inside and names with underscores, and a tuple with an object at one
position. -/
def tourDeclarations : Declarations :=
  [("guide", .full { kind := "object" } none (some [("first_name", .shorthand "string"),
      ("home", .full { kind := "object" } none (some [("city", .shorthand "string")]) none)]) none),
    ("start_time", .shorthand "date"),
    ("stops", .full { kind := "tuple" }
      (some (.positions [.kind "number", .fields [("name", .shorthand "string")]])) none none)]

/-- The schema that a tour is declared with. -/
def tourSchema : Schema where
  fields := [
    ("guide", .ofKind (.object [("first_name", .ofKind (.string ',' false)),
      ("home", .ofKind (.object [("city", .ofKind (.string ',' false))]))])),
    ("start_time", .ofKind .date),
    ("stops", .ofKind (.tuple [.scalar .number, .object [("name", .ofKind (.string ',' false))]]))]
  references := []
  relations := []
  warnings := []

/-- The schema of tours comes from its declarations. -/
theorem tourSchema_isCanonical : tourSchema.IsCanonical := by
  refine ⟨tourDeclarations, ⟨by decide, ?_⟩, rfl⟩
  simp +decide [tourDeclarations, declarationsSatisfy, Declaration.Satisfies, declarationsSatisfy?,
    elementsSatisfy?, Elements.Satisfy, positionsSatisfy, Position.Satisfies, Attributes.WellFormed]

/-- The names of a tour are apart at every level. -/
theorem tourSchema_apart : LevelApart tourSchema.fields ∧ fieldsApart tourSchema.fields := by
  refine ⟨by decide, ?_⟩
  simp only [tourSchema, Field.ofKind, fieldsApart, kindApart, positionsApart, elementApart]
  decide

/-- The search names of a tour are distinct although some names have underscores. -/
theorem Schema.searchNames_nodup_tour :
    tourSchema.IsCanonical ∧
      (∀ o ∈ fieldsOccurrences "" tourSchema.fields, Query.PlainName o.name) ∧
      LevelApart tourSchema.fields ∧ fieldsApart tourSchema.fields ∧
      (tourSchema.indexDefinition "Tour" { storage := .json }).fields.map IndexField.searchName =
        ["guide_first_name", "guide_home_city", "start_time", "stops_0", "stops_1_name"] ∧
      ((tourSchema.indexDefinition "Tour" { storage := .json }).fields.map
        IndexField.searchName).Nodup := by
  have hplain : ∀ o ∈ fieldsOccurrences "" tourSchema.fields, Query.PlainName o.name := by decide
  obtain ⟨hlevel, hfields⟩ := tourSchema_apart
  obtain ⟨_, htrees⟩ :=
    Schema.searchNames_nodup tourSchema_isCanonical "Tour" { storage := .json }
  obtain ⟨_, _, _, hnodup⟩ := htrees rfl
  exact ⟨tourSchema_isCanonical, hplain, hlevel, hfields, by decide,
    hnodup hplain ⟨hlevel, hfields⟩⟩

/-- A field beside an object that has the name of the object and of a field in it. -/
def guideDeclarations : Declarations :=
  [("guide", .full { kind := "object" } none (some [("name", .shorthand "string")]) none),
    ("guide_name", .shorthand "string")]

/-- A field inside an object, and one at the top whose name is its search name. -/
def guideSchema : Schema where
  fields := [
    ("guide", .ofKind (.object [("name", .ofKind (.string ',' false))])),
    ("guide_name", .ofKind (.string ',' false))]
  references := []
  relations := []
  warnings := []

/-- A field of an object and a field beside the object can have one name in an index of trees. -/
theorem Schema.searchNames_repeated_guide :
    guideSchema.IsCanonical ∧
      (guideSchema.indexDefinition "Tour" { storage := .json }).fields.map IndexField.path =
        ["$.guide.name", "$.guide_name"] ∧
      (guideSchema.indexDefinition "Tour" { storage := .json }).fields.map IndexField.searchName =
        ["guide_name", "guide_name"] ∧
      ¬ ((guideSchema.indexDefinition "Tour" { storage := .json }).fields.map
        IndexField.searchName).Nodup := by
  refine ⟨⟨guideDeclarations, ⟨by decide, ?_⟩, rfl⟩, by decide, by decide, by decide⟩
  simp +decide [guideDeclarations, declarationsSatisfy, Declaration.Satisfies, declarationsSatisfy?,
    elementsSatisfy?, Attributes.WellFormed]

end DocumentSchema
