import DocumentSchema.Proofs.Index.Searchable
import DocumentSchema.Proofs.Index.SearchNames
import DocumentSchema.Proofs.Query.Calls

/-!
# Clauses on fields that an index declares

A search reads the positions of a path leniently and names its clause after the text it was given; an
index writes each position in one way. So a clause is on the field that its path leads to exactly if
the path spells every position as the index does (`joined_eq_iff`), and a clause on a path in
another spelling names nothing, or a field that happens to have its name
(`Schema.declares_clause_iff`). An index of hashes has no positions and no such clauses.
-/

set_option autoImplicit false

namespace DocumentSchema

/-- An index has a field of a name. -/
def IndexDefinition.Declares (d : IndexDefinition) (searchName : String) : Prop :=
  ∃ f ∈ d.fields, f.searchName = searchName

instance (d : IndexDefinition) (searchName : String) : Decidable (d.Declares searchName) :=
  inferInstanceAs (Decidable (∃ f ∈ d.fields, f.searchName = searchName))

namespace Index

open Query

/-! ## One spelling -/

/-- Only the spelling that an index writes gives the name that an index writes. -/
theorem segments_eq_of_text {segments : List String} {location : List Step}
    (hspelled : List.Forall₂ Step.SpelledBy segments location)
    (htext : List.Forall₂ Step.SpelledBy (location.map Step.text) location)
    (h : underscored segments = underscored (location.map Step.text)) :
    segments = location.map Step.text := by
  induction hspelled with
  | nil => rfl
  | cons hstep _ ih =>
    rename_i segment step rest location _
    obtain ⟨hcanonical, hrest⟩ := List.forall₂_cons.1 htext
    rw [List.map_cons]
    have hfirst : segment = step.text := by
      cases step with
      | member name => exact hstep
      | position index =>
        -- No spelling of a position holds an underscore, so none continues another.
        rcases first_cases (List.cons.inj h).2 with ⟨hfirst, _⟩ | ⟨_, hcontinues⟩ | ⟨_, hcontinues⟩
        · exact String.toList_inj.1 hfirst
        · exact absurd (hcontinues.mem (by simp)) (underscore_not_mem hcanonical)
        · exact absurd (hcontinues.mem (by simp)) (underscore_not_mem hstep)
    have hmore : underscored rest = underscored (location.map Step.text) := by
      rw [hfirst] at h
      exact List.append_cancel_left h
    rw [← hfirst, ← ih hrest hmore]

/-- A clause is named after its path, and its path leads to a field of its family. -/
theorem clause_path {s : Search} (hschema : s.schema.Sound) {path : String} {clause : Clause}
    (h : s.clause? path = some clause) :
    clause.searchName = searchName path ∧
      ∃ place, (Place.level s.schema.fields).reach? (segments path) = some place ∧
        place.family? s.storage = some clause.matcher.family ∧
        ¬ (s.storage = .hash ∧ 1 < (segments path).length) := by
  constructor
  · rw [Search.clause?] at h
    cases hadd : s.addClause path with
    | error e =>
      rw [hadd] at h
      cases h
    | ok next =>
      rw [hadd] at h
      obtain ⟨kind, matcher, _, rfl⟩ := Search.addClause_eq_ok hadd
      have hlast := (List.getLast?_concat).symm.trans h
      rw [← Option.some.inj hlast]
  · have hfamily := Search.clause?_family hschema path
    rw [h, Option.map_some, Query.family?] at hfamily
    obtain ⟨place, hreach, hplace⟩ := Option.bind_eq_some_iff.1 hfamily.symm
    split at hplace
    · cases hplace
    · rename_i hnested
      exact ⟨place, hreach, hplace, hnested⟩

/-! ## What an index declares -/

variable {schema : Schema}

/-- The index of trees declares exactly the search names of leaves. -/
theorem declares_trees_iff (schema : Schema) (model : String) {settings : Settings}
    (hstorage : settings.storage = .json) (name : String) :
    (schema.indexDefinition model settings).Declares name ↔
      ∃ leaf ∈ leaves (.level schema.fields), leaf.searchName "" = name := by
  have htexts := treeFields_texts schema.fields "$" ""
  rw [IndexDefinition.Declares, Schema.indexDefinition, hstorage]
  constructor
  · rintro ⟨f, hf, rfl⟩
    have hmem : fieldTexts f ∈ (treeFields "$" "" schema.fields).map fieldTexts :=
      List.mem_map_of_mem hf
    rw [htexts] at hmem
    obtain ⟨leaf, hleaf, heq⟩ := List.mem_map.1 hmem
    exact ⟨leaf, hleaf, congrArg Prod.snd heq⟩
  · rintro ⟨leaf, hleaf, rfl⟩
    have hmem : leaf.texts "$" "" ∈ (fieldsLeaves schema.fields).map (Leaf.texts "$" "") :=
      List.mem_map_of_mem hleaf
    rw [← htexts] at hmem
    obtain ⟨f, hf, heq⟩ := List.mem_map.1 hmem
    exact ⟨f, hf, congrArg Prod.snd heq⟩

/-- An index of hashes has the indexed fields at the top that can be searched. -/
theorem declares_hash (model : String) {settings : Settings} (hstorage : settings.storage = .hash)
    {name : String} {place : Place} (hmember : Place.member? schema.fields name = some place)
    (hfamily : (place.family? .hash).isSome = true) :
    (schema.indexDefinition model settings).Declares name := by
  obtain ⟨field, hget, hindexed, rfl⟩ := Place.member?_eq_some_iff.1 hmember
  obtain ⟨family, hfamily⟩ := Option.isSome_iff_exists.1 hfamily
  have hentry : entryOf? (name, field) = some (name, some family.label) := by
    rw [entryOf?, if_pos hindexed, hfamily]
    rfl
  have hmem : (name, some family.label) ∈ schema.fields.filterMap entryOf? :=
    List.mem_filterMap.2 ⟨_, Entries.mem_of_get? hget, hentry⟩
  rw [← hashFields_topEntries] at hmem
  obtain ⟨f, hf, heq⟩ := List.mem_map.1 hmem
  rw [IndexDefinition.Declares, Schema.indexDefinition, hstorage]
  exact ⟨f, hf, congrArg Prod.fst heq⟩

/-- Segments that lead to one field at the top are its name. -/
theorem member_of_single {fields : Entries Field} {segments : List String}
    (hlength : ¬ 1 < segments.length) {location : List Step} {place : Place}
    (hspelled : List.Forall₂ Step.SpelledBy segments location)
    (hat : (Place.level fields).at? location = some place)
    (hfamily : (place.family? .hash).isSome = true) :
    ∃ name, segments = [name] ∧ location = [.member name] ∧
      Place.member? fields name = some place := by
  cases hspelled with
  | nil =>
    obtain rfl := Option.some.inj hat
    cases hfamily
  | cons hstep hrest =>
    rename_i segment step rest location
    cases hrest with
    | cons _ _ => simp at hlength
    | nil =>
      rw [Place.at?_cons] at hat
      obtain ⟨next, hnext, hat⟩ := Option.bind_eq_some_iff.1 hat
      obtain rfl := Option.some.inj hat
      cases step with
      | member name =>
        obtain rfl : segment = name := hstep
        exact ⟨segment, rfl, rfl, hnext⟩
      | position index => cases hnext

/-- With plain names, the index of trees declares the names of its leaves, step by step. -/
theorem declares_trees_plain (hschema : schema.Sound)
    (hplain : (Place.level schema.fields).Named PlainName) (model : String) {settings : Settings}
    (hstorage : settings.storage = .json) (name : String) :
    (schema.indexDefinition model settings).Declares name ↔
      ∃ leaf ∈ leaves (.level schema.fields),
        String.intercalate "_" (leaf.location.map Step.text) = name := by
  have htext : ∀ leaf ∈ leaves (.level schema.fields),
      leaf.searchName "" = String.intercalate "_" (leaf.location.map Step.text) := by
    intro leaf hleaf
    obtain ⟨hat, _⟩ := (mem_leaves (resolved_root hschema)).1 hleaf
    rw [Leaf.searchName_root, locationSegments_plain hplain hat]
  rw [declares_trees_iff schema model hstorage]
  constructor
  · rintro ⟨leaf, hleaf, rfl⟩
    exact ⟨leaf, hleaf, (htext leaf hleaf).symm⟩
  · rintro ⟨leaf, hleaf, rfl⟩
    exact ⟨leaf, hleaf, htext leaf hleaf⟩

/-- Segments that spell the location of a leaf give its name only as an index spells it. -/
theorem joined_eq_iff {fields : Entries Field} (hfields : (Place.level fields).Resolved)
    {segments : List String} {leaf : Leaf} (hleaf : leaf ∈ leaves (.level fields))
    (hspelled : List.Forall₂ Step.SpelledBy segments leaf.location) :
    String.intercalate "_" (leaf.location.map Step.text) = String.intercalate "_" segments ↔
      segments = leaf.location.map Step.text := by
  have hlocation := location_ne_nil hfields hleaf
  have htext : leaf.location.map Step.text ≠ [] := by simpa using hlocation
  have hsegments : segments ≠ [] := by
    rintro rfl
    exact hlocation (List.forall₂_nil_left_iff.1 hspelled)
  rw [joined_inj_iff htext hsegments]
  obtain ⟨hat, _⟩ := (mem_leaves hfields).1 hleaf
  constructor
  · intro h
    exact segments_eq_of_text hspelled (hfields.spelledBy_text hat) h.symm
  · intro h
    rw [← h]

/-- What spells the location of a leaf gives a declared name if it is spelled as in the index, or if
a leaf elsewhere has the name. -/
theorem declares_joined_iff (hschema : schema.Sound)
    (hplain : (Place.level schema.fields).Named PlainName) (model : String) {settings : Settings}
    (hstorage : settings.storage = .json) {segments : List String} {leaf : Leaf}
    (hleaf : leaf ∈ leaves (.level schema.fields))
    (hspelled : List.Forall₂ Step.SpelledBy segments leaf.location) :
    (schema.indexDefinition model settings).Declares (String.intercalate "_" segments) ↔
      segments = leaf.location.map Step.text ∨
        ∃ other ∈ leaves (.level schema.fields), other.location ≠ leaf.location ∧
          String.intercalate "_" (other.location.map Step.text) =
            String.intercalate "_" segments := by
  have hjoined := joined_eq_iff (resolved_root hschema) hleaf hspelled
  rw [declares_trees_plain hschema hplain model hstorage]
  constructor
  · rintro ⟨other, hother, hname⟩
    by_cases hsame : other.location = leaf.location
    · rw [hsame] at hname
      exact Or.inl (hjoined.1 hname)
    · exact Or.inr ⟨other, hother, hsame, hname⟩
  · rintro (hcanonical | ⟨other, hother, _, hname⟩)
    · exact ⟨leaf, hleaf, hjoined.2 hcanonical⟩
    · exact ⟨other, hother, hname⟩

/-- Where names are apart, no leaf elsewhere has the name. -/
theorem not_elsewhere (hschema : schema.Sound) (hapart : PlaceApart (.level schema.fields))
    {segments : List String} {leaf : Leaf} (hleaf : leaf ∈ leaves (.level schema.fields))
    (hspelled : List.Forall₂ Step.SpelledBy segments leaf.location) :
    ¬ ∃ other ∈ leaves (.level schema.fields), other.location ≠ leaf.location ∧
      String.intercalate "_" (other.location.map Step.text) =
        String.intercalate "_" segments := by
  have hroot := resolved_root hschema
  obtain ⟨hat, _⟩ := (mem_leaves hroot).1 hleaf
  have hsegments : segments ≠ [] := by
    rintro rfl
    exact location_ne_nil hroot hleaf (List.forall₂_nil_left_iff.1 hspelled)
  rintro ⟨other, hother, hne, hname⟩
  exact hne (location_eq_of_joined hroot hapart hspelled hat hsegments hother hname.symm).symm

end Index

open Index Query

/-- A clause is on the field that its path leads to exactly if the path is spelled as the index has
it. In another spelling the index declares the name of the clause only if a field elsewhere has that
name, and none has where names are apart. A hash accepts no other spelling. -/
theorem Schema.declares_clause_iff {s : Search} (hschema : s.schema.IsCanonical)
    (hplain : ∀ o ∈ fieldsOccurrences "" s.schema.fields, PlainName o.name) (model : String)
    {settings : Settings} (hstorage : settings.storage = s.storage) {path : String}
    {clause : Clause} (h : s.clause? path = some clause) :
    ∃ location place, List.Forall₂ Step.SpelledBy (segments path) location ∧
      (Place.level s.schema.fields).at? location = some place ∧
      place.family? s.storage = some clause.matcher.family ∧
      (s.schema.indexDefinition model settings).Declares
        (String.intercalate "_" (location.map Step.text)) ∧
      ((s.schema.indexDefinition model settings).Declares clause.searchName ↔
        segments path = location.map Step.text ∨
          ∃ other ∈ leaves (.level s.schema.fields), other.location ≠ location ∧
            String.intercalate "_" (other.location.map Step.text) = clause.searchName) ∧
      (LevelApart s.schema.fields ∧ fieldsApart s.schema.fields →
        ((s.schema.indexDefinition model settings).Declares clause.searchName ↔
          segments path = location.map Step.text)) ∧
      (s.storage = .hash → segments path = location.map Step.text) := by
  have hsound := hschema.sound
  obtain ⟨hname, place, hreach, hfamily, hnested⟩ := clause_path hsound h
  obtain ⟨location, hspelled, hat⟩ := Place.reach?_eq_some_iff.1 hreach
  refine ⟨location, place, hspelled, hat, hfamily, ?_⟩
  rw [hname, Query.searchName]
  cases hs : s.storage with
  | hash =>
    rw [hs] at hfamily hnested hstorage
    have hplace : (place.family? .hash).isSome = true := Option.isSome_of_eq_some hfamily
    have hlength : ¬ 1 < (segments path).length := fun hlong => hnested ⟨rfl, hlong⟩
    obtain ⟨name, hsegments, rfl, hmember⟩ := member_of_single hlength hspelled hat hplace
    have hdeclared := declares_hash model hstorage hmember hplace
    have hcanonical : segments path = [Step.member name].map Step.text := hsegments
    have htext : String.intercalate "_" ([Step.member name].map Step.text) = name :=
      String.intercalate_singleton
    rw [hcanonical, htext]
    exact ⟨hdeclared, by simp [hdeclared], by simp [hdeclared], fun _ => rfl⟩
  | json =>
    rw [hs] at hfamily hstorage
    have hleaf : ⟨location, place⟩ ∈ leaves (.level s.schema.fields) :=
      (mem_leaves (resolved_root hsound)).2 ⟨hat, Option.isSome_of_eq_some hfamily⟩
    have hdeclared := declares_trees_plain hsound ⟨"", hplain⟩ model hstorage
    have hiff := declares_joined_iff hsound ⟨"", hplain⟩ model hstorage hleaf hspelled
    refine ⟨(hdeclared _).2 ⟨_, hleaf, rfl⟩, hiff, ?_, by simp⟩
    intro hapart
    rw [hiff]
    exact or_iff_left (not_elsewhere hsound hapart hleaf hspelled)

/-! ## Positions with a zero in front -/

/-- The names of a shop are apart at every level. -/
theorem shopSchema_apart : LevelApart shopSchema.fields ∧ fieldsApart shopSchema.fields := by
  refine ⟨by decide, ?_⟩
  simp only [shopSchema, Field.ofKind, fieldsApart, kindApart, positionsApart, elementApart]
  decide

/-- A position of a shop spelled with a zero in front has a clause, but no field of the index. -/
theorem Schema.declares_clause_iff_shop :
    shopSchema.IsCanonical ∧ (∀ o ∈ fieldsOccurrences "" shopSchema.fields, PlainName o.name) ∧
      LevelApart shopSchema.fields ∧ fieldsApart shopSchema.fields ∧
      ∃ clause, (shopSearch .json).clause? "pair.01[*].label" = some clause ∧
        clause.searchName = "pair_01_label" ∧
        ∃ location, List.Forall₂ Step.SpelledBy ["pair", "01", "label"] location ∧
          (shopSchema.indexDefinition "Shop" { storage := .json }).Declares
            (String.intercalate "_" (location.map Step.text)) ∧
          ¬ (shopSchema.indexDefinition "Shop" { storage := .json }).Declares "pair_01_label" ∧
          ["pair", "01", "label"] ≠ location.map Step.text := by
  have hplain : ∀ o ∈ fieldsOccurrences "" shopSchema.fields, PlainName o.name := by decide
  obtain ⟨hlevel, hfields⟩ := shopSchema_apart
  refine ⟨shopSchema_isCanonical, hplain, hlevel, hfields, ?_⟩
  cases hclause : (shopSearch .json).clause? "pair.01[*].label" with
  | none => exact absurd hclause (by decide)
  | some clause =>
    have hstorage : ({ storage := .json } : Settings).storage = (shopSearch .json).storage := rfl
    obtain ⟨location, _, hspelled, _, _, hdeclared, _, hiff, _⟩ :=
      Schema.declares_clause_iff shopSchema_isCanonical hplain "Shop" hstorage hclause
    have hname : clause.searchName = "pair_01_label" := by
      have hsome : ((shopSearch .json).clause? "pair.01[*].label").map Clause.searchName =
          some "pair_01_label" := by decide
      rw [hclause] at hsome
      exact Option.some.inj hsome
    have hsegments : segments "pair.01[*].label" = ["pair", "01", "label"] := by decide
    have hmissing :
        ¬ (shopSchema.indexDefinition "Shop" { storage := .json }).Declares "pair_01_label" := by
      decide
    rw [hsegments] at hspelled hiff
    rw [hname] at hiff
    exact ⟨clause, rfl, hname, location, hspelled, hdeclared, hmissing,
      fun heq => hmissing ((hiff ⟨hlevel, hfields⟩).2 heq)⟩

/-- A tuple of one number. -/
def pairDeclarations : Declarations :=
  [("pair", .full { kind := "tuple" } (some (.positions [.kind "number"])) none none)]

/-- A tuple with a number. -/
def pairSchema : Schema where
  fields := [("pair", .ofKind (.tuple [.scalar .number]))]
  references := []
  relations := []
  warnings := []

/-- A search for pairs in trees. -/
def pairSearch : Search := { schema := pairSchema, storage := .json }

/-- A search accepts a position with a zero in front, and its clause is on a name that the index
does not have. -/
theorem Schema.clause_undeclared_pair :
    pairSchema.IsCanonical ∧ (∀ o ∈ fieldsOccurrences "" pairSchema.fields, PlainName o.name) ∧
      (pairSearch.clause? "pair.00").map Clause.searchName = some "pair_00" ∧
      (pairSchema.indexDefinition "Pairs" { storage := .json }).fields.map IndexField.searchName =
        ["pair_0"] ∧
      ¬ (pairSchema.indexDefinition "Pairs" { storage := .json }).Declares "pair_00" := by
  refine ⟨⟨pairDeclarations, ⟨by decide, ?_⟩, rfl⟩, by decide, by decide, by decide, by decide⟩
  simp +decide [pairDeclarations, declarationsSatisfy, Declaration.Satisfies, declarationsSatisfy?,
    elementsSatisfy?, Elements.Satisfy, positionsSatisfy, Position.Satisfies, Attributes.WellFormed]

end DocumentSchema
