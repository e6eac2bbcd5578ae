import Mathlib.Data.List.Induction
import DocumentSchema.Registry
import DocumentSchema.Proofs.Entries

/-!
# Links that resolve

A link resolves against the registry and the name of the schema that has it; validation knows no
such names and passes over the links of a schema to itself. The two agree on the links of registered
schemas, because such a schema is found under its own name (`Registry.dangling?_eq_none_iff`). The
schema under a name is the one registered there last, unless it was taken away since
(`Registry.get?_run`), and so validation can be read off the history of a registry
(`Registry.validate_after_run`).
-/

set_option autoImplicit false

namespace DocumentSchema

/-- A field of a schema is a reference or a relation to a target. -/
inductive Schema.LinksTo (schema : Schema) : String → Target → Prop
  | reference {field : String} {r : Reference} (h : (field, r) ∈ schema.references) :
      LinksTo schema field r.target
  | relation {field : String} {r : Relation} (h : (field, r) ∈ schema.relations) :
      LinksTo schema field r.target

namespace Registry

/-! ## Runs -/

/-- What is done to a registry. -/
inductive Change where
  | register (name : String) (schema : Schema)
  | unregister (name : String)
  | clear

/-- The registry after a change. -/
def next (r : Registry) : Change → Registry
  | .register name schema => r.register name schema
  | .unregister name => r.unregister name
  | .clear => r.clear

/-- The registry after some changes, empty at first. -/
def run (changes : List Change) : Registry := changes.foldl next {}

/-- What a change leaves under a name, if it concerns the name. -/
def Change.leaves? (name : String) : Change → Option (Option Schema)
  | .register other schema => if other = name then some (some schema) else none
  | .unregister other => if other = name then some none else none
  | .clear => some none

/-- What the last change to concern a name left there. -/
def registered? (changes : List Change) (name : String) : Option Schema :=
  ((changes.filterMap (Change.leaves? name)).getLast?).join

/-- A registry after one more change is the one before it with that change made. -/
theorem run_concat (changes : List Change) (change : Change) :
    run (changes ++ [change]) = (run changes).next change := by
  rw [run, List.foldl_append]
  rfl

/-- The last change decides what a name stands for, unless it is about other names. -/
theorem registered?_concat (changes : List Change) (change : Change) (name : String) :
    registered? (changes ++ [change]) name =
      (change.leaves? name).getD (registered? changes name) := by
  unfold registered?
  rw [List.filterMap_append]
  cases hleaves : change.leaves? name with
  | none =>
    rw [List.filterMap_cons_none hleaves, List.filterMap_nil, List.append_nil]
    rfl
  | some left =>
    rw [List.filterMap_cons_some hleaves, List.filterMap_nil, List.getLast?_concat]
    rfl

/-- The schemas of a registry stay in the order of their names under a change. -/
theorem ordered_next {r : Registry} (h : r.schemas.Ordered) (change : Change) :
    (r.next change).schemas.Ordered := by
  cases change with
  | register name schema => exact h.insert name schema
  | unregister name => exact h.erase name
  | clear => exact Entries.Ordered.nil

/-- The schemas of a registry are in the order of their names. -/
theorem ordered_run (changes : List Change) : (run changes).schemas.Ordered := by
  induction changes using List.reverseRecOn with
  | nil => exact Entries.Ordered.nil
  | append_singleton changes change ih =>
    rw [run_concat]
    exact ordered_next ih change

/-- A change leaves something under the names that it concerns, and the others alone. -/
theorem get?_next {r : Registry} (h : r.schemas.Ordered) (change : Change) (name : String) :
    (r.next change).get? name = (change.leaves? name).getD (r.get? name) := by
  cases change with
  | register other schema =>
    show (r.schemas.insert other schema).get? name = _
    rw [Entries.get?_insert, Change.leaves?]
    split <;> rfl
  | unregister other =>
    show (r.schemas.erase other).get? name = _
    rw [h.distinct.get?_erase, Change.leaves?]
    split <;> rfl
  | clear => rfl

/-- After every run a registry has under each name what was left there last. -/
theorem get?_run (changes : List Change) (name : String) :
    (run changes).get? name = registered? changes name := by
  induction changes using List.reverseRecOn with
  | nil => rfl
  | append_singleton changes change ih =>
    rw [run_concat, registered?_concat, get?_next (ordered_run changes), ih]

/-! ## Validation -/

/-- The links of a schema are listed exactly with their fields and targets. -/
theorem mem_links_iff {schema : Schema} {field : String} {target : Target} :
    (field, target) ∈ links schema ↔ schema.LinksTo field target := by
  unfold links
  rw [List.mem_append, List.mem_map, List.mem_map]
  constructor
  · rintro (⟨⟨_, r⟩, hmem, heq⟩ | ⟨⟨_, r⟩, hmem, heq⟩)
    · obtain ⟨rfl, rfl⟩ := Prod.mk.inj heq
      exact .reference hmem
    · obtain ⟨rfl, rfl⟩ := Prod.mk.inj heq
      exact .relation hmem
  · intro h
    cases h with
    | reference hmem => exact Or.inl ⟨_, hmem, rfl⟩
    | relation hmem => exact Or.inr ⟨_, hmem, rfl⟩

variable {r : Registry}

/-- A link is refused for the name of a schema that is not there. -/
theorem dangling?_eq_some {link : String × Target} {e : SchemaError}
    (h : r.dangling? link = some e) :
    ∃ name, link.2 = .named name ∧ r.get? name = none ∧ e = .unknownTarget link.1 name := by
  obtain ⟨field, target⟩ := link
  cases target with
  | self => cases h
  | named name =>
    simp only [dangling?] at h
    split at h
    · cases h
    · rename_i habsent
      refine ⟨name, rfl, ?_, (Option.some.inj h).symm⟩
      rwa [Entries.contains, Bool.not_eq_true, Option.isSome_eq_false_iff,
        Option.isNone_iff_eq_none] at habsent

/-- Validation accepts a link of a registered schema exactly if the link resolves. -/
theorem dangling?_eq_none_iff {owner : String} (howner : (r.get? owner).isSome = true)
    (link : String × Target) :
    r.dangling? link = none ↔ (r.target? owner link.2).isSome = true := by
  obtain ⟨field, target⟩ := link
  cases target with
  | self => exact iff_of_true rfl howner
  | named name =>
    show (if r.schemas.contains name then none else _) = none ↔ r.schemas.contains name = true
    cases r.schemas.contains name <;> simp

/-- Validation succeeds if it accepts every link of every schema. -/
theorem validate_eq_ok_iff :
    r.validate = .ok () ↔ ∀ e ∈ r.schemas, ∀ link ∈ links e.2, r.dangling? link = none := by
  have hnone : r.validate = .ok () ↔
      (r.schemas.flatMap fun e => links e.2).findSome? r.dangling? = none := by
    unfold validate
    cases (r.schemas.flatMap fun e => links e.2).findSome? r.dangling? <;> simp
  rw [hnone, List.findSome?_eq_none_iff]
  constructor
  · intro h e he link hlink
    exact h link (List.mem_flatMap.2 ⟨e, he, hlink⟩)
  · intro h link hmem
    obtain ⟨e, he, hlink⟩ := List.mem_flatMap.1 hmem
    exact h e he link hlink

/-- Validation fails with the refusal of a link. -/
theorem exists_of_validate {refusal : SchemaError} (h : r.validate = .error refusal) :
    ∃ e ∈ r.schemas, ∃ link ∈ links e.2, r.dangling? link = some refusal := by
  unfold validate at h
  split at h
  · cases h
  · rename_i found hfound
    obtain rfl := Except.error.inj h
    obtain ⟨link, hmem, hrefused⟩ := List.exists_of_findSome?_eq_some hfound
    obtain ⟨e, he, hlink⟩ := List.mem_flatMap.1 hmem
    exact ⟨e, he, link, hlink, hrefused⟩

/-- After every run the schema registered last under a name is there. Validation succeeds exactly if
every link of every registered schema resolves as seen from that schema; where it fails, it names a
field of a registered schema and the target of the field, which does not resolve. -/
theorem validate_after_run (changes : List Change) :
    (∀ name, (run changes).get? name = registered? changes name) ∧
    ((run changes).validate = .ok () ↔
      ∀ owner schema field target, registered? changes owner = some schema →
        schema.LinksTo field target →
          ((run changes).target? owner target).isSome = true) ∧
    ∀ refusal, (run changes).validate = .error refusal →
      ∃ owner schema field name, registered? changes owner = some schema ∧
        schema.LinksTo field (.named name) ∧
        (run changes).target? owner (.named name) = none ∧
        refusal = .unknownTarget field name := by
  have hget := get?_run changes
  have hfound : ∀ e ∈ (run changes).schemas, (run changes).get? e.1 = some e.2 :=
    fun e he => (ordered_run changes).distinct.get?_of_mem he
  refine ⟨hget, ?_, ?_⟩
  · rw [validate_eq_ok_iff]
    constructor
    · intro h owner schema field target hregistered hlink
      have howner : (run changes).get? owner = some schema := (hget owner).trans hregistered
      have haccepted := h (owner, schema) (Entries.mem_of_get? howner) (field, target)
        (mem_links_iff.2 hlink)
      exact (dangling?_eq_none_iff (Option.isSome_of_eq_some howner) _).1 haccepted
    · intro h e he link hlink
      have howner := hfound e he
      refine (dangling?_eq_none_iff (Option.isSome_of_eq_some howner) link).2 ?_
      exact h e.1 e.2 link.1 link.2 ((hget e.1).symm.trans howner) (mem_links_iff.1 hlink)
  · intro refusal hrefused
    obtain ⟨e, he, ⟨field, target⟩, hlink, hdangling⟩ := exists_of_validate hrefused
    obtain ⟨name, rfl, habsent, rfl⟩ := dangling?_eq_some hdangling
    exact ⟨e.1, e.2, field, name, (hget e.1).symm.trans (hfound e he), mem_links_iff.1 hlink,
      habsent, rfl⟩

end Registry

/-! ## Authors and books -/

/-- Authors with a mentor among them and with books. -/
def authorSchema : Schema where
  fields := []
  references := [("mentor", ⟨.self, true⟩)]
  relations := [("books", ⟨.named "Book", false, true, none⟩)]
  warnings := []

/-- Books with an author. -/
def bookSchema : Schema where
  fields := []
  references := [("author", ⟨.named "Author", false⟩)]
  relations := []
  warnings := []

/-- Two schemas that point to each other, registered one after the other. -/
def libraryChanges : List Registry.Change :=
  [.register "Book" bookSchema, .unregister "Book", .register "Author" authorSchema,
    .register "Book" bookSchema]

/-- Authors are taken away again, and so the books point to nothing. -/
theorem Registry.validate_after_run_library :
    (Registry.run libraryChanges).validate = .ok () ∧
      ((Registry.run libraryChanges).target? "Author" .self).isSome = true ∧
      (Registry.run (libraryChanges ++ [.unregister "Author"])).validate =
        .error (.unknownTarget "author" "Author") ∧
      ∃ owner schema, Registry.registered? (libraryChanges ++ [.unregister "Author"]) owner =
          some schema ∧ schema.LinksTo "author" (.named "Author") := by
  have hvalid : (Registry.run libraryChanges).validate = .ok () := by rfl
  have hrefused : (Registry.run (libraryChanges ++ [.unregister "Author"])).validate =
      .error (.unknownTarget "author" "Author") := by rfl
  have hregistered : Registry.registered? libraryChanges "Author" = some authorSchema := by rfl
  have hmentor : authorSchema.LinksTo "mentor" .self :=
    Registry.mem_links_iff.1 List.mem_cons_self
  obtain ⟨owner, schema, field, name, howner, hlink, _, heq⟩ :=
    (Registry.validate_after_run _).2.2 _ hrefused
  obtain ⟨rfl, rfl⟩ := SchemaError.unknownTarget.inj heq
  exact ⟨hvalid, (Registry.validate_after_run libraryChanges).2.1.1 hvalid _ _ _ _ hregistered
    hmentor, hrefused, owner, schema, howner, hlink⟩

end DocumentSchema
