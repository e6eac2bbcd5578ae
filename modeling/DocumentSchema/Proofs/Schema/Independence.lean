import Mathlib.Data.List.Forall2
import DocumentSchema.Proofs.Entries
import DocumentSchema.Proofs.Schema.Accepted

/-!
# Declarations one by one

Declarations have no say in what comes of each other. Each one alone declares a schema of one name
or is refused, and these answers tell all about the declarations together: they are accepted exactly
if each of them is, what they declare is then the union of the parts, and otherwise the error is
that of the least name that is refused alone (`Schema.ofDeclarations_parts`). So a declaration can
be added or taken away without a thought for the others.
-/

set_option autoImplicit false

namespace DocumentSchema

open Outcome

namespace Schema

/-- The schema with the fields, references and relations of some schemas, and with their warnings in
a row. -/
def union (parts : List Schema) : Schema where
  fields := Entries.ofList (parts.flatMap fields)
  references := Entries.ofList (parts.flatMap references)
  relations := Entries.ofList (parts.flatMap relations)
  warnings := parts.flatMap warnings

/-- The entries of two schemas one after the other. -/
def append (a b : Schema) : Schema where
  fields := a.fields ++ b.fields
  references := a.references ++ b.references
  relations := a.relations ++ b.relations
  warnings := a.warnings ++ b.warnings

/-- A schema with names among those of some declarations, in their order. -/
structure KeysWithin (schema : Schema) (declarations : Declarations) : Prop where
  fields : schema.fields.keys.Sublist declarations.keys
  references : schema.references.keys.Sublist declarations.keys
  relations : schema.relations.keys.Sublist declarations.keys

/-! ## The first declaration and the others -/

/-- An entry is added to a schema as one of its own in front. -/
theorem addEntry_eq_append (name : String) (entry : Resolution.Entry) (warnings : List Warning)
    (schema : Schema) :
    Resolution.addEntry name entry warnings schema =
      (Resolution.addEntry name entry warnings ⟨[], [], [], []⟩).append schema := by
  cases entry <;> simp [Resolution.addEntry, append]

/-- The first declaration is resolved alone, and then the others. -/
theorem ofDeclarations_cons (first : String × Declaration) (rest : Declarations) :
    ofDeclarations (first :: rest) = do
      let part ← ofDeclarations [first]
      let later ← ofDeclarations rest
      return part.append later := by
  obtain ⟨name, declaration⟩ := first
  simp only [ofDeclarations, bind_assoc, pure_bind, ok_bind]
  refine congrArg (Resolution.checkName name name >>= ·) (funext fun _ => ?_)
  refine congrArg (Resolution.resolveEntry name declaration >>= ·) (funext fun resolved => ?_)
  obtain ⟨entry, warnings⟩ := resolved
  refine congrArg (ofDeclarations rest >>= ·) (funext fun later => ?_)
  exact congrArg pure (addEntry_eq_append name entry warnings later)

/-- The names of a schema stay among those declared when an entry is added. -/
theorem KeysWithin.addEntry {schema : Schema} {declarations : Declarations}
    (h : schema.KeysWithin declarations) (name : String) (declaration : Declaration)
    (entry : Resolution.Entry) (warnings : List Warning) :
    (Resolution.addEntry name entry warnings schema).KeysWithin
      ((name, declaration) :: declarations) := by
  cases entry with
  | field resolved => exact ⟨h.fields.cons_cons name, h.references.cons name, h.relations.cons name⟩
  | reference r => exact ⟨h.fields.cons name, h.references.cons_cons name, h.relations.cons name⟩
  | relation r => exact ⟨h.fields.cons name, h.references.cons name, h.relations.cons_cons name⟩

/-- A schema has no names but the declared ones. -/
theorem keysWithin_of_ofDeclarations {declarations : Declarations} {schema : Schema}
    (h : ofDeclarations declarations = .ok schema) : schema.KeysWithin declarations := by
  induction declarations generalizing schema with
  | nil =>
    obtain rfl := Except.ok.inj h
    exact ⟨List.Sublist.refl _, List.Sublist.refl _, List.Sublist.refl _⟩
  | cons first rest ih =>
    obtain ⟨name, declaration⟩ := first
    obtain ⟨entry, warnings, later, _, _, hlater, rfl⟩ := Resolution.ofDeclarations_cons_eq_ok h
    exact (ih hlater).addEntry name declaration entry warnings

/-! ## Accepted declarations -/

/-- Accepted declarations declare what they declare alone, one after the other. -/
theorem ofDeclarations_eq_ok_iff {declarations : Declarations} {schema : Schema} :
    ofDeclarations declarations = .ok schema ↔
      ∃ parts, List.Forall₂ (fun d part => ofDeclarations [d] = .ok part) declarations parts ∧
        schema = parts.foldr append ⟨[], [], [], []⟩ := by
  induction declarations generalizing schema with
  | nil =>
    constructor
    · intro h
      obtain rfl := Except.ok.inj h
      exact ⟨[], List.Forall₂.nil, rfl⟩
    · rintro ⟨parts, hparts, rfl⟩
      cases hparts
      rfl
  | cons first rest ih =>
    rw [ofDeclarations_cons]
    constructor
    · intro h
      obtain ⟨part, hpart, h⟩ := bind_eq_ok.1 h
      obtain ⟨later, hlater, h⟩ := bind_eq_ok.1 h
      obtain rfl := pure_eq_ok.1 h
      obtain ⟨parts, hparts, rfl⟩ := ih.1 hlater
      exact ⟨part :: parts, List.Forall₂.cons hpart hparts, rfl⟩
    · rintro ⟨parts, hparts, rfl⟩
      cases hparts with
      | cons hpart hrest =>
        have hlater := ih.2 ⟨_, hrest, rfl⟩
        exact bind_eq_ok.2 ⟨_, hpart, bind_eq_ok.2 ⟨_, hlater, rfl⟩⟩

/-- Schemas put together have the parts of each, one after the other. -/
theorem foldr_append_eq (parts : List Schema) :
    parts.foldr append ⟨[], [], [], []⟩ =
      ⟨parts.flatMap fields, parts.flatMap references, parts.flatMap relations,
        parts.flatMap warnings⟩ := by
  induction parts with
  | nil => rfl
  | cons part rest ih =>
    rw [List.foldr_cons, ih]
    rfl

/-- The schema of declarations in key order is the union of those of the single declarations. -/
theorem eq_union_of_parts {declarations : Declarations} (hordered : Entries.Ordered declarations)
    {schema : Schema} (h : ofDeclarations declarations = .ok schema) {parts : List Schema}
    (hschema : schema = parts.foldr append ⟨[], [], [], []⟩) : schema = union parts := by
  obtain ⟨hfields, hreferences, hrelations⟩ := keysWithin_of_ofDeclarations h
  rw [foldr_append_eq] at hschema
  subst hschema
  rw [union, (hordered.of_keys hfields).ofList_eq, (hordered.of_keys hreferences).ofList_eq,
    (hordered.of_keys hrelations).ofList_eq]

/-- Declarations are accepted together exactly if each of them is accepted alone. -/
theorem succeeds_ofDeclarations {declarations : Declarations} :
    Succeeds (ofDeclarations declarations) ↔
      ∀ d ∈ declarations, Succeeds (ofDeclarations [d]) := by
  induction declarations with
  | nil => exact iff_of_true (succeeds_ok _) (fun d hd => absurd hd List.not_mem_nil)
  | cons first rest ih =>
    rw [ofDeclarations_cons, succeeds_both, ih, List.forall_mem_cons]

/-! ## Refused declarations -/

/-- Of several refused declarations, the first gives the error. -/
theorem ofDeclarations_eq_error_iff {declarations : Declarations} {e : SchemaError} :
    ofDeclarations declarations = .error e ↔
      ∃ before d after, declarations = before ++ d :: after ∧
        (∀ earlier ∈ before, Succeeds (ofDeclarations [earlier])) ∧
        ofDeclarations [d] = .error e := by
  induction declarations with
  | nil =>
    constructor
    · intro h
      cases h
    · rintro ⟨before, d, after, hsplit, _⟩
      exact absurd hsplit.symm (List.append_ne_nil_of_right_ne_nil _ (List.cons_ne_nil _ _))
  | cons first rest ih =>
    rw [ofDeclarations_cons]
    constructor
    · intro h
      -- the first declaration is resolved alone before the rest is looked at
      cases hfirst : ofDeclarations [first] with
      | error other =>
        rw [hfirst] at h
        obtain rfl := Except.error.inj h
        exact ⟨[], first, rest, rfl, fun _ hd => absurd hd List.not_mem_nil, hfirst⟩
      | ok part =>
        rw [hfirst, ok_bind] at h
        cases hrest : ofDeclarations rest with
        | ok later =>
          rw [hrest] at h
          cases h
        | error other =>
          rw [hrest] at h
          obtain rfl := Except.error.inj h
          obtain ⟨before, d, after, rfl, hbefore, hd⟩ := ih.1 hrest
          exact ⟨first :: before, d, after, rfl,
            List.forall_mem_cons.2 ⟨⟨part, hfirst⟩, hbefore⟩, hd⟩
    · rintro ⟨before, d, after, hsplit, hbefore, hd⟩
      cases before with
      | nil =>
        obtain ⟨rfl, rfl⟩ := List.cons.inj hsplit
        rw [hd]
        rfl
      | cons earlier before =>
        obtain ⟨rfl, rfl⟩ := List.cons.inj hsplit
        obtain ⟨⟨part, hpart⟩, hbefore⟩ := List.forall_mem_cons.1 hbefore
        rw [hpart, ok_bind, ih.2 ⟨before, d, after, rfl, hbefore, hd⟩]
        rfl

/-- In key order, the first declaration of some sort is the one with the least name. -/
theorem exists_split_iff {declarations : Declarations} (hordered : Entries.Ordered declarations)
    {p q : String × Declaration → Prop} :
    (∃ before d after, declarations = before ++ d :: after ∧ (∀ earlier ∈ before, p earlier) ∧
        q d) ↔
      ∃ d ∈ declarations, q d ∧ ∀ earlier ∈ declarations, earlier.1 < d.1 → p earlier := by
  constructor
  · rintro ⟨before, d, after, rfl, hbefore, hd⟩
    refine ⟨d, List.mem_append_right _ List.mem_cons_self, hd, ?_⟩
    intro earlier hearlier hlt
    rcases List.mem_append.1 hearlier with hin | hin
    · exact hbefore earlier hin
    · have habove := List.pairwise_append.1 hordered
      rcases List.mem_cons.1 hin with rfl | hin
      · exact absurd hlt (String.lt_irrefl _)
      · have hgt := (List.pairwise_cons.1 habove.2.1).1 earlier hin
        exact absurd (String.lt_trans hlt hgt) (String.lt_irrefl _)
  · rintro ⟨d, hd, hq, hearlier⟩
    obtain ⟨before, after, rfl⟩ := List.append_of_mem hd
    refine ⟨before, d, after, rfl, ?_, hq⟩
    intro earlier hin
    have hlt := (List.pairwise_append.1 hordered).2.2 earlier hin d List.mem_cons_self
    exact hearlier earlier (List.mem_append_left _ hin) hlt

/-- Declarations are accepted exactly if each of them is accepted alone. Then the schema is the
union of the schemas of the single declarations, with their warnings in the order of the names.
Otherwise the error is that of the least name whose declaration is refused alone. -/
theorem ofDeclarations_parts {declarations : Declarations}
    (hordered : Entries.Ordered declarations) :
    (Succeeds (ofDeclarations declarations) ↔
      ∀ d ∈ declarations, Succeeds (ofDeclarations [d])) ∧
    (∀ schema, ofDeclarations declarations = .ok schema →
      ∃ parts, List.Forall₂ (fun d part => ofDeclarations [d] = .ok part) declarations parts ∧
        schema = union parts) ∧
    (∀ e, ofDeclarations declarations = .error e ↔
      ∃ d ∈ declarations, ofDeclarations [d] = .error e ∧
        ∀ earlier ∈ declarations, earlier.1 < d.1 → Succeeds (ofDeclarations [earlier])) := by
  refine ⟨succeeds_ofDeclarations, ?_, ?_⟩
  · intro schema h
    obtain ⟨parts, hparts, hschema⟩ := ofDeclarations_eq_ok_iff.1 h
    exact ⟨parts, hparts, eq_union_of_parts hordered h hschema⟩
  · intro e
    rw [ofDeclarations_eq_error_iff]
    exact exists_split_iff hordered

end Schema

/-! ## A menu -/

/-- A relation with an array of objects on its edges, and another array of objects. -/
def menuDeclarations : Declarations :=
  [("cook", .full { kind := "relation", target := some "Person" } none none
      (some [("shifts", .full { kind := "array" } (some (.fields [("day", .shorthand "date")]))
        none none)])),
    ("courses", .full { kind := "array" } (some (.fields [("name", .shorthand "string")]))
      none none)]

/-- The menu with two declarations that are refused, each for a reason of its own. -/
def menuDeclarationsRefused : Declarations :=
  menuDeclarations ++ [("price", .shorthand "money"), ("wine", .shorthand "tuple")]

/-- A menu is put together from its declarations, and refused with the error of one. -/
theorem Schema.ofDeclarations_parts_menu :
    Entries.Ordered menuDeclarations ∧ Entries.Ordered menuDeclarationsRefused ∧
      (∃ parts schema, List.Forall₂ (fun d part => Schema.ofDeclarations [d] = .ok part)
          menuDeclarations parts ∧
        Schema.ofDeclarations menuDeclarations = .ok schema ∧ schema = Schema.union parts ∧
        schema.warnings =
          [.unsearchableArray "cook.meta.shifts", .unsearchableArray "courses"]) ∧
      Schema.ofDeclarations menuDeclarationsRefused = .error (.unknownKind "price" "money") := by
  have hmenu : Entries.Ordered menuDeclarations := by decide
  have hrefused : Entries.Ordered menuDeclarationsRefused := by decide
  obtain ⟨hsucceeds, hunion, _⟩ := Schema.ofDeclarations_parts hmenu
  have halone : ∀ d ∈ menuDeclarations, Succeeds (Schema.ofDeclarations [d]) := by
    exact List.forall_mem_cons.2 ⟨⟨_, rfl⟩, List.forall_mem_singleton.2 ⟨_, rfl⟩⟩
  obtain ⟨schema, hschema⟩ := hsucceeds.2 halone
  obtain ⟨parts, hparts, hsame⟩ := hunion schema hschema
  have hwarnings : schema.warnings =
      [.unsearchableArray "cook.meta.shifts", .unsearchableArray "courses"] := by
    obtain rfl := Except.ok.inj hschema
    rfl
  have herror := (Schema.ofDeclarations_parts hrefused).2.2 (.unknownKind "price" "money")
  refine ⟨hmenu, hrefused, ⟨parts, schema, hparts, hschema, hsame, hwarnings⟩, herror.2 ?_⟩
  refine ⟨("price", .shorthand "money"), ?_, rfl, ?_⟩
  · simp [menuDeclarationsRefused]
  · intro earlier hearlier hlt
    rcases List.mem_append.1 hearlier with hin | hin
    · exact halone earlier hin
    · -- neither of the refused names lies below the first of them
      rcases List.mem_cons.1 hin with rfl | hin
      · exact absurd hlt (by decide)
      · obtain rfl := List.mem_singleton.1 hin
        exact absurd hlt (by decide)

end DocumentSchema
