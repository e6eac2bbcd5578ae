import DocumentSchema.Proofs.Schema.Correspondence

/-!
# What accepted declarations guarantee

Whoever holds a resolved schema may rely on the rules that resolution enforces, at every depth and by
whichever way a field came there (`Occurrence.Regular`). Its fields are the declared ones, the names
that were declared are its names, each in one of its three maps (`Resolution.perm_keys`), and its
warnings are its arrays of objects, depth first and in the order of the names.
`Schema.ofDeclarations_regular` puts these together.
-/

set_option autoImplicit false

namespace DocumentSchema

open Outcome

/-- The rules that hold of every field of a schema. -/
structure Occurrence.Regular (o : Occurrence) : Prop where
  name_free : o.name.toList.head? ≠ some Resolution.reservedStart
  tuple_nonempty : ∀ positions, o.field.kind = .tuple positions → positions ≠ []
  weight_positive : ∀ weight phonetic, o.field.kind = .text weight phonetic →
    ∃ x : Finite64, weight = .finite x ∧ 0 < x.units
  dimension_positive : ∀ options, o.field.kind = .vector options → 1 ≤ options.dimension.toNat
  date_unsorted : o.field.kind = .date → o.field.sortable = false
  objects_unindexed : ∀ fields separator, o.field.kind = .array (.object fields) separator →
    o.field.indexed = false
  number_default : ∀ literals v, o.field.kind = .number (some literals) →
    o.field.default = some v → v ≠ .null → ∃ x ∈ literals, ∃ y, v = .number y ∧ x.equal y = true
  bigInt_default : ∀ literals v, o.field.kind = .bigInt (some literals) →
    o.field.default = some v → v ≠ .null → ∃ i ∈ literals, v = .bigInt i

/-! ## Rules of one field -/

/-- A finite number that is not at most zero is a positive multiple of the least positive one. -/
theorem Floating.exists_units_pos {x : Binary64} (hfinite : x.isFinite = true)
    (hpositive : x.le Floating.zero = false) : ∃ y : Finite64, x = .finite y ∧ 0 < y.units := by
  cases x with
  | finite y =>
    refine ⟨y, rfl, ?_⟩
    have hle : ¬y.units ≤ (Finite.zero false : Finite64).units := of_decide_eq_false hpositive
    have hzero : (Finite.zero false : Finite64).units = 0 := by decide
    rw [hzero] at hle
    exact not_le.1 hle
  | infinite negative => cases hfinite
  | nan negative => cases hfinite

/-- The invariant of resolved fields gives the rules. -/
theorem Occurrence.Resolved.regular {o : Occurrence} (h : o.Resolved) : o.Regular := by
  obtain ⟨path, name, kind, optional, sortable, indexed, default⟩ := o
  obtain ⟨hname, inherited, _, hdate, hkind, hdefault⟩ := h
  refine ⟨hname, ?_, ?_, ?_, ?_, ?_, ?_, ?_⟩
  · rintro positions rfl
    exact hkind.1
  · rintro weight phonetic rfl
    exact Floating.exists_units_pos hkind.1 hkind.2
  · rintro options rfl
    exact Nat.one_le_iff_ne_zero.2 fun hzero => hkind (UInt32.toNat_inj.1 hzero)
  · rintro rfl
    exact hdate rfl
  · rintro fields separator rfl
    exact hkind.1 fields rfl
  · rintro literals v rfl hv hnull
    rcases hdefault v hv with rfl | ⟨x, rfl, hadmits⟩
    · exact absurd rfl hnull
    · obtain ⟨y, hy, hequal⟩ := List.any_eq_true.1 hadmits
      exact ⟨y, hy, _, rfl, hequal⟩
  · rintro literals v rfl hv hnull
    rcases hdefault v hv with rfl | ⟨i, rfl, hadmits⟩
    · exact absurd rfl hnull
    · obtain ⟨j, hj, hequal⟩ := List.any_eq_true.1 hadmits
      exact ⟨j, hj, congrArg Value.bigInt (of_decide_eq_true hequal).symm⟩

/-! ## Names and warnings of entries -/

namespace Resolution

/-- The fields that a schema has through one of its entries. -/
def Entry.occurrences (name : String) : Entry → List Occurrence
  | .field f => f.occurrences name name
  | .reference _ => []
  | .relation r =>
    match r.edge with
    | none => []
    | some fields => fieldsOccurrences (name ++ ".meta") fields

/-- The declarations of fields that a declaration at the top level brings. -/
def topDeclared (name : String) : Declaration → List Declared
  | .shorthand kind => Declaration.occurrences name name (.shorthand kind)
  | .full a elements properties edge =>
    if a.kind = "reference" then []
    else if a.kind = "relation" then propertiesDeclared? (name ++ ".meta") edge
    else Declaration.occurrences name name (.full a elements properties edge)

/-- The declaration of a field brings itself and the ones below it. -/
theorem topDeclared_ofField {name : String} {d : Declaration} (h : OfField d) :
    topDeclared name d = d.occurrences name name := by
  cases d with
  | shorthand kind => rfl
  | full a elements properties edge => rw [topDeclared, if_neg h.1, if_neg h.2]

/-- An entry has the fields that its declaration brings. -/
theorem resolveEntry_gives {name : String} {d : Declaration} {entry : Entry} {ws : List Warning}
    (h : resolveEntry name d = .ok (entry, ws)) :
    List.Forall₂ Declared.Gives (topDeclared name d) (entry.occurrences name) := by
  cases resolvesEntry_of_resolveEntry h with
  | field hfree hfield =>
    rw [topDeclared_ofField hfree]
    exact resolveField_gives d hfield name
  | reference a target hkind =>
    rw [topDeclared, if_pos hkind]
    exact List.Forall₂.nil
  | relation a target hkind =>
    rw [topDeclared, hkind]
    exact List.Forall₂.nil
  | described a target declarations hkind hfields =>
    rw [topDeclared, hkind]
    exact resolveFields_gives declarations hfields

/-- The warnings of an entry are those of the fields in it. -/
theorem Entry.warnings_eq (name : String) (entry : Entry) :
    entry.warnings name = (entry.occurrences name).filterMap Occurrence.warning? := by
  cases entry with
  | field f => exact Field.warnings_eq f name name
  | reference r => rfl
  | relation r =>
    rw [Entry.warnings, Entry.occurrences]
    cases r.edge with
    | none => rfl
    | some fields => exact fieldsWarnings_eq fields _

/-- All fields in a resolved entry are resolved. -/
theorem Entry.occurrences_resolved {name : String} {entry : Entry}
    (hname : name.toList.head? ≠ some reservedStart) (h : entry.Resolved) :
    ∀ o ∈ entry.occurrences name, o.Resolved := by
  cases entry with
  | field f => exact Field.occurrences_resolved f h hname name
  | reference r =>
    intro o ho
    cases ho
  | relation r =>
    rw [Entry.occurrences]
    cases hedge : r.edge with
    | none =>
      intro o ho
      cases ho
    | some fields => exact fieldsOccurrences_resolved fields (h.2 fields hedge).2 _

/-- The schema of some entries holds at each name what the entry there brings. -/
theorem occurrencesAt_ofEntries {entries : Entries Entry} (h : entries.Ordered)
    {e : String × Entry} (he : e ∈ entries) :
    (ofEntries entries).occurrencesAt e.1 = e.2.occurrences e.1 := by
  obtain ⟨name, entry⟩ := e
  obtain ⟨hfields, _, hrelations⟩ := ofEntries_eq entries
  rw [Schema.occurrencesAt, hfields, hrelations, get?_pick _ h, get?_pick _ h,
    h.distinct.get?_of_mem he, Option.bind_some, Option.bind_some]
  cases entry with
  | field f => exact List.append_nil _
  | reference r => rfl
  | relation r =>
    obtain ⟨target, optional, indexed, edge⟩ := r
    cases edge <;> rfl

/-- In the order of their names, the entries of a schema bring its fields at every depth. -/
theorem flatMap_occurrencesAt {entries : Entries Entry} (h : entries.Ordered) :
    entries.keys.flatMap (ofEntries entries).occurrencesAt =
      entries.flatMap fun e => e.2.occurrences e.1 := by
  rw [Entries.keys, List.flatMap_map]
  exact List.flatMap_congr fun e he => occurrencesAt_ofEntries h he

/-- The warnings of a schema are those of its entries, one after the other. -/
theorem warnings_ofEntries (entries : Entries Entry) :
    (ofEntries entries).warnings = entries.flatMap fun e => e.2.warnings e.1 := by
  induction entries with
  | nil => rfl
  | cons first rest ih =>
    obtain ⟨name, entry⟩ := first
    rw [List.flatMap_cons, ← ih, ofEntries]
    cases entry <;> rfl

/-- Sorted into three maps, no name of an entry is lost and none is there twice. -/
theorem perm_keys (entries : Entries Entry) :
    ((pick Entry.field? entries).keys ++ (pick Entry.reference? entries).keys ++
      (pick Entry.relation? entries).keys).Perm entries.keys := by
  induction entries with
  | nil => exact List.Perm.refl _
  | cons first rest ih =>
    obtain ⟨name, entry⟩ := first
    show List.Perm _ (name :: Entries.keys rest)
    refine List.Perm.trans ?_ (ih.cons name)
    cases entry with
    | field f => exact List.Perm.refl _
    | reference r =>
      show List.Perm ((pick Entry.field? rest).keys ++ name :: (pick Entry.reference? rest).keys ++
        (pick Entry.relation? rest).keys) _
      rw [List.append_assoc, List.append_assoc, List.cons_append]
      exact List.perm_middle
    | relation r => exact List.perm_middle

/-- An entry that resolution gives for a declaration at the top level. -/
structure Answers (d : String × Declaration) (e : String × Entry) : Prop where
  name : d.1 = e.1
  name_free : e.1.toList.head? ≠ some reservedStart
  resolved : e.2.Resolved
  given : List.Forall₂ Declared.Gives (topDeclared d.1 d.2) (e.2.occurrences e.1)

/-- Accepted declarations give the schema of their entries, one for each of them. -/
theorem exists_answers {declarations : Declarations}
    (hdeclarations : declarationsSatisfy Attributes.WellFormed declarations) {schema : Schema}
    (h : Schema.ofDeclarations declarations = .ok schema) :
    ∃ entries, List.Forall₂ Answers declarations entries ∧ schema = ofEntries entries := by
  induction declarations generalizing schema with
  | nil =>
    obtain rfl := Except.ok.inj h
    exact ⟨[], List.Forall₂.nil, rfl⟩
  | cons first rest ih =>
    obtain ⟨name, declaration⟩ := first
    obtain ⟨entry, own, later, hname, hentry, hlater, rfl⟩ := ofDeclarations_cons_eq_ok h
    obtain ⟨entries, hentries, rfl⟩ := ih hdeclarations.2 hlater
    have hsound := sound_resolveEntry (fun _ ha => ha) hdeclarations.1 hentry
    have hanswer : Answers (name, declaration) (name, entry) :=
      ⟨rfl, checkName_eq_ok hname, hsound.resolved, resolveEntry_gives hentry⟩
    refine ⟨(name, entry) :: entries, hentries.cons hanswer, ?_⟩
    rw [hsound.warnings_eq]
    rfl

section Answered

variable {declarations : Declarations} {entries : Entries Entry}
  (h : List.Forall₂ Answers declarations entries)

include h

/-- The entries have the names of the declarations. -/
theorem keys_of_answers : entries.keys = declarations.keys := by
  induction h with
  | nil => rfl
  | cons hfirst _ ih => exact List.cons_eq_cons.2 ⟨hfirst.name.symm, ih⟩

/-- The entries are resolved and have free names. -/
theorem sound_of_answers :
    ∀ e ∈ entries, e.1.toList.head? ≠ some reservedStart ∧ e.2.Resolved := by
  induction h with
  | nil =>
    intro e he
    cases he
  | cons hfirst _ ih => exact List.forall_mem_cons.2 ⟨⟨hfirst.name_free, hfirst.resolved⟩, ih⟩

/-- The entries have the fields that the declarations bring. -/
theorem given_of_answers :
    List.Forall₂ Declared.Gives (declarations.flatMap fun d => topDeclared d.1 d.2)
      (entries.flatMap fun e => e.2.occurrences e.1) := by
  induction h with
  | nil => exact List.Forall₂.nil
  | cons hfirst _ ih => exact List.rel_append hfirst.given ih

end Answered

end Resolution

/-- The fields of a schema at every depth, in the order of some names. -/
def Schema.occurrences (schema : Schema) (names : List String) : List Occurrence :=
  names.flatMap schema.occurrencesAt

/-- The declarations of fields at every depth. -/
def Declarations.occurrences (declarations : Declarations) : List Declared :=
  declarations.flatMap fun d => Resolution.topDeclared d.1 d.2

/-- The fields of a schema at every depth are those that its entries bring. -/
theorem Resolution.occurrences_of_answers {declarations : Declarations} {entries : Entries Entry}
    (h : List.Forall₂ Answers declarations entries) (hordered : Entries.Ordered declarations) :
    (ofEntries entries).occurrences declarations.keys =
      entries.flatMap fun e => e.2.occurrences e.1 := by
  have hkeys := keys_of_answers h
  rw [Schema.occurrences, ← hkeys, flatMap_occurrencesAt (hordered.of_keys_eq hkeys)]

/-- All fields in resolved entries are resolved. -/
theorem Resolution.resolved_of_answers {declarations : Declarations} {entries : Entries Entry}
    (h : List.Forall₂ Answers declarations entries) :
    ∀ o ∈ entries.flatMap fun e => e.2.occurrences e.1, o.Resolved := by
  intro o ho
  obtain ⟨e, he, ho⟩ := List.mem_flatMap.1 ho
  obtain ⟨hfree, hresolved⟩ := sound_of_answers h e he
  exact Entry.occurrences_resolved hfree hresolved o ho

/-- The invariant of resolved fields holds of every field of an accepted schema. -/
theorem Schema.occurrences_resolved {declarations : Declarations}
    (hdeclarations : declarations.WellFormed) {schema : Schema}
    (h : Schema.ofDeclarations declarations = .ok schema) :
    ∀ o ∈ schema.occurrences declarations.keys, o.Resolved := by
  obtain ⟨hordered, hsatisfy⟩ := hdeclarations
  obtain ⟨entries, hentries, rfl⟩ := Resolution.exists_answers hsatisfy h
  rw [Resolution.occurrences_of_answers hentries hordered]
  exact Resolution.resolved_of_answers hentries

/-- Accepted declarations give a schema whose fields, at every depth, are the declared ones and
regular. No name is reserved; fields, references and relations share out the declared names; and the
warnings are the arrays of objects, depth first in the order of the names. -/
theorem Schema.ofDeclarations_regular {declarations : Declarations}
    (hdeclarations : declarations.WellFormed) {schema : Schema}
    (h : Schema.ofDeclarations declarations = .ok schema) :
    (∀ name ∈ declarations.keys, name.toList.head? ≠ some Resolution.reservedStart) ∧
    List.Forall₂ Declared.Gives declarations.occurrences (schema.occurrences declarations.keys) ∧
    (∀ o ∈ schema.occurrences declarations.keys, o.Regular) ∧
    (schema.fields.keys ++ schema.references.keys ++ schema.relations.keys).Perm
      declarations.keys ∧
    declarations.keys.Nodup ∧
    schema.warnings =
      (schema.occurrences declarations.keys).filterMap Occurrence.warning? := by
  obtain ⟨hordered, hsatisfy⟩ := hdeclarations
  obtain ⟨entries, hentries, rfl⟩ := Resolution.exists_answers hsatisfy h
  have hkeys := Resolution.keys_of_answers hentries
  have hsorted := hordered.of_keys_eq hkeys
  have hsound := Resolution.sound_of_answers hentries
  have hoccurrences := Resolution.occurrences_of_answers hentries hordered
  obtain ⟨hfields, hreferences, hrelations⟩ := Resolution.ofEntries_eq entries
  rw [hoccurrences, ← hkeys]
  refine ⟨?_, Resolution.given_of_answers hentries, ?_, ?_, ?_, ?_⟩
  · intro name hname
    obtain ⟨e, he, rfl⟩ := List.mem_map.1 hname
    exact (hsound e he).1
  · intro o ho
    exact (Resolution.resolved_of_answers hentries o ho).regular
  · rw [hfields, hreferences, hrelations]
    exact Resolution.perm_keys entries
  · exact List.pairwise_map.2 hsorted.distinct
  · rw [Resolution.warnings_ofEntries, List.filterMap_flatMap]
    exact List.flatMap_congr fun e _ => Resolution.Entry.warnings_eq e.1 e.2

/-! ## A schema of a clinic -/

/-- A relation with an array of dated objects on its edges, an integer with literals and a default, a
tuple with an array of objects at one position, a vector and a link. -/
def clinicDeclarations : Declarations :=
  [("doctor", .full { kind := "relation", target := some "Person" } none none
      (some [("shifts", .full { kind := "array" } (some (.fields [("day", .shorthand "date")]))
        none none)])),
    ("level", .full { kind := "bigint",
                      literals := some [.number (.integer 4 (by decide) (by decide)),
                        .number (.integer 5 (by decide) (by decide))],
                      default := some (.number (.integer 5 (by decide) (by decide))) }
      none none none),
    ("pair", .full { kind := "tuple" } (some (.positions [.kind "number", .fields [("notes",
      .full { kind := "array" } (some (.fields [("tags",
        .full { kind := "array", separator := some "|" } none none none)])) none none)]]))
      none none),
    ("photo", .shorthand "vector"),
    ("ward", .full { kind := "reference", target := some "self" } none none none)]

/-- The schema that a clinic is declared with. -/
def clinicSchema : Schema where
  fields := [
    ("level", .mk (.bigInt (some [⟨4, by decide, by decide⟩, ⟨5, by decide, by decide⟩])) false
      false true (some (.bigInt ⟨5, by decide, by decide⟩))),
    ("pair", .ofKind (.tuple [.scalar .number, .object [("notes",
      .mk (.array (.object [("tags", .mk (.array (.scalar .string) '|') false false false none)])
        ',') false false false none)]])),
    ("photo", .ofKind (.vector .standard))]
  references := [("ward", ⟨.self, false⟩)]
  relations := [("doctor", ⟨.named "Person", false, true, some [("shifts",
    .mk (.array (.object [("day", .mk .date false false false none)]) ',') false false false
      none)]⟩)]
  warnings := [.unsearchableArray "doctor.meta.shifts", .unsearchableArray "pair.1.notes"]

/-- A clinic with fields on the edges of a relation, in a tuple and in an array. -/
theorem Schema.ofDeclarations_regular_clinic :
    clinicDeclarations.WellFormed ∧ Schema.ofDeclarations clinicDeclarations = .ok clinicSchema ∧
      (clinicSchema.occurrences clinicDeclarations.keys).map Occurrence.path =
        ["doctor.meta.shifts", "doctor.meta.shifts.day", "level", "pair", "pair.1.notes",
          "pair.1.notes.tags", "photo"] ∧
      (∀ o ∈ clinicSchema.occurrences clinicDeclarations.keys, o.Regular) ∧
      (clinicSchema.occurrences clinicDeclarations.keys).filterMap Occurrence.warning? =
        [.unsearchableArray "doctor.meta.shifts", .unsearchableArray "pair.1.notes"] := by
  have hdeclarations : clinicDeclarations.WellFormed := by
    refine ⟨by decide, ?_⟩
    simp +decide [clinicDeclarations, declarationsSatisfy, Declaration.Satisfies,
      declarationsSatisfy?, elementsSatisfy?, Elements.Satisfy, positionsSatisfy,
      Position.Satisfies, Attributes.WellFormed, Json.WellFormed]
  have hresolved : Schema.ofDeclarations clinicDeclarations = .ok clinicSchema := rfl
  obtain ⟨_, _, hregular, _, _, hwarnings⟩ :=
    Schema.ofDeclarations_regular hdeclarations hresolved
  exact ⟨hdeclarations, hresolved, by decide, hregular, hwarnings.symm⟩

end DocumentSchema
