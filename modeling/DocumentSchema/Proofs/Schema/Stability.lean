import DocumentSchema.Proofs.Declaration.Reader
import DocumentSchema.Proofs.Declaration.RoundTrip
import DocumentSchema.Proofs.Schema.Canonical

/-!
# Stability of resolution

A schema declares itself: its declarations, which leave nothing out, are accepted and resolve to the
schema, warnings included. If the schema was read from a tree, then its declarations can be written
as a tree from which the schema is read again.
-/

set_option autoImplicit false

namespace DocumentSchema

open Resolution

/-- Accepted declarations come from entries in key order, which the schema declares again. -/
theorem Schema.exists_entries_toDeclarations {p : Attributes → Prop}
    (hp : ∀ a, p a → a.WellFormed) {declarations : Declarations}
    (hordered : Entries.Ordered declarations) (hsatisfy : declarationsSatisfy p declarations)
    {schema : Schema} (h : Schema.ofDeclarations declarations = .ok schema) :
    ∃ entries, SoundEntries p declarations entries ∧
      schema.toDeclarations = entries.mapValues Entry.declare ∧
      Schema.ofDeclarations schema.toDeclarations = .ok schema := by
  obtain ⟨entries, hentries, rfl⟩ := exists_entries hp hsatisfy h
  have hdeclared := toDeclarations_ofEntries (hentries.ordered hordered)
  refine ⟨entries, hentries, hdeclared, ?_⟩
  rw [hdeclared]
  exact ofDeclarations_declared hentries.resolved

/-- The declarations of a resolved schema resolve to the same schema with the same warnings, and a
schema that was read from a tree is read again from the tree of its declarations. -/
theorem Schema.resolution_stable :
    (∀ (declarations : Declarations) (schema : Schema), declarations.WellFormed →
      Schema.ofDeclarations declarations = .ok schema →
        Schema.ofDeclarations schema.toDeclarations = .ok schema) ∧
    (∀ (json : Json) (schema : Schema), json.WellFormed → Schema.ofJson json = .ok schema →
      Schema.ofJson schema.toDeclarations.toJson = .ok schema) := by
  refine ⟨?_, ?_⟩
  · rintro declarations schema ⟨hordered, hsatisfy⟩ h
    obtain ⟨_, _, _, hstable⟩ :=
      Schema.exists_entries_toDeclarations (fun _ ha => ha) hordered hsatisfy h
    exact hstable
  · intro json schema hjson h
    cases json with
    | object members =>
      unfold Schema.ofJson at h
      dsimp only at h
      split at h
      · rename_i declarations hread
        obtain ⟨hkeys, hsatisfy⟩ := satisfy_of_declarationsOfMembers? members hjson.2 hread
        obtain ⟨entries, hentries, hdeclared, hstable⟩ :=
          Schema.exists_entries_toDeclarations (fun _ ha => ha.wellFormed)
            (hjson.1.of_keys_eq hkeys) hsatisfy h
        have hportable : declarationsSatisfy Attributes.Portable schema.toDeclarations := by
          rw [hdeclared]
          exact hentries.portable fun _ ha => ha.portable
        have hroundTrip := declarationsOfMembers?_toMembers schema.toDeclarations hportable
        show Schema.ofJson (.object (declarationsToMembers schema.toDeclarations)) = .ok schema
        rw [Schema.ofJson, hroundTrip]
        exact hstable
      · cases h
    | null => cases h
    | bool b => cases h
    | number n => cases h
    | string s => cases h
    | array items => cases h

/-! ## A schema with reviews -/

/-- A relation with a dated edge, an array of objects with a default inside, and an array of texts.
-/
def reviewsTree : Json :=
  .object [
    ("author", .object [("meta", .object [("since", .string "date")]), ("schema", .string "Person"),
      ("type", .string "relation")]),
    ("reviews", .object [("elements", .object [("approved", .object [("default", .bool true),
      ("type", .string "boolean")])]), ("type", .string "array")]),
    ("tags", .string "array")]

/-- A relation with a date on its edges, an array of objects with a default, and an array of texts.
-/
def reviewsDeclarations : Declarations :=
  [("author", .full { kind := "relation", target := some "Person" } none none
      (some [("since", .shorthand "date")])),
    ("reviews", .full { kind := "array" } (some (.fields [("approved",
      .full { kind := "boolean", default := some (.bool true) } none none none)])) none none),
    ("tags", .shorthand "array")]

/-- The schema that reviews are declared with. -/
def reviewsSchema : Schema where
  fields := [
    ("reviews", .mk (.array (.object [("approved", .mk .boolean false false false
      (some (.bool true)))]) ',') false false false none),
    ("tags", .ofKind (.array (.scalar .string) ','))]
  references := []
  relations := [("author", ⟨.named "Person", false, true, some [("since", .ofKind .date)]⟩)]
  warnings := [.unsearchableArray "reviews"]

/-- A schema of reviews, resolved from declarations and from a tree, with a warning. -/
theorem Schema.resolution_stable_reviews :
    (reviewsDeclarations.WellFormed ∧ Schema.ofDeclarations reviewsDeclarations = .ok reviewsSchema ∧
      Schema.ofDeclarations reviewsSchema.toDeclarations = .ok reviewsSchema) ∧
    (reviewsTree.WellFormed ∧ Schema.ofJson reviewsTree = .ok reviewsSchema ∧
      Schema.ofJson reviewsSchema.toDeclarations.toJson = .ok reviewsSchema) := by
  have hdeclarations : reviewsDeclarations.WellFormed := by
    refine ⟨by decide, ?_⟩
    simp +decide [reviewsDeclarations, declarationsSatisfy, Declaration.Satisfies, declarationsSatisfy?,
      elementsSatisfy?, Elements.Satisfy, Attributes.WellFormed, Json.WellFormed]
  have hjson : reviewsTree.WellFormed := by
    simp +decide [reviewsTree, Json.WellFormed, membersWellFormed]
  exact ⟨⟨hdeclarations, rfl,
      Schema.resolution_stable.1 reviewsDeclarations reviewsSchema hdeclarations rfl⟩,
    hjson, rfl, Schema.resolution_stable.2 reviewsTree reviewsSchema hjson rfl⟩

end DocumentSchema
