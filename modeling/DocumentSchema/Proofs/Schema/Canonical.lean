import DocumentSchema.Proofs.Schema.Declared

/-!
# Schemas as lists of entries

Resolution turns each declaration into a field, a reference or a relation, and a schema sorts these
entries into three maps. Because names differ, nothing is lost in that (`toDeclarations_ofEntries`),
so a schema is as good as the list of its entries, and it resolves to itself entry by entry
(`ofDeclarations_declared`).
-/

set_option autoImplicit false

namespace DocumentSchema

/-- A target is never given by the name that stands for the schema itself. -/
def Target.Resolved (target : Target) : Prop := Target.read target.label = target

/-- A target that was read is resolved. -/
theorem Target.resolved_read (name : String) : (Target.read name).Resolved := by
  unfold Target.Resolved Target.read
  split
  · rfl
  · rename_i hname
    exact if_neg hname

namespace Resolution

open Outcome

/-- An entry, declared again. -/
def Entry.declare : Entry → Declaration
  | .field f => f.declare
  | .reference r => r.declare
  | .relation r => r.declare

/-- The warnings of an entry under its name. -/
def Entry.warnings (name : String) : Entry → List Warning
  | .field f => f.warnings name
  | .reference _ => []
  | .relation r =>
    match r.edge with
    | none => []
    | some fields => fieldsWarnings (name ++ ".meta") fields

/-- What resolution guarantees of an entry. -/
def Entry.Resolved : Entry → Prop
  | .field f => f.Resolved true
  | .reference r => r.target.Resolved
  | .relation r =>
    r.target.Resolved ∧ ∀ fields, r.edge = some fields →
      Entries.Ordered fields ∧ fieldsResolved true fields

/-- The field that an entry is, if it is one. -/
def Entry.field? : Entry → Option Field
  | .field f => some f
  | _ => none

/-- The reference that an entry is, if it is one. -/
def Entry.reference? : Entry → Option Reference
  | .reference r => some r
  | _ => none

/-- The relation that an entry is, if it is one. -/
def Entry.relation? : Entry → Option Relation
  | .relation r => some r
  | _ => none

/-- The schema with the given entries and their warnings. -/
def ofEntries : Entries Entry → Schema
  | [] => ⟨[], [], [], []⟩
  | (name, entry) :: rest => addEntry name entry (entry.warnings name) (ofEntries rest)

/-! ## A schema and its entries -/

/-- The entries of one sort under their names. -/
def pick {α : Type} (select : Entry → Option α) (entries : Entries Entry) : Entries α :=
  entries.filterMap fun e => (select e.2).map fun a => (e.1, a)

/-- A name is found among the entries of one sort exactly if its entry is of that sort. -/
theorem get?_pick {α : Type} (select : Entry → Option α) {entries : Entries Entry}
    (h : entries.Ordered) (name : String) :
    (pick select entries).get? name = (entries.get? name).bind select := by
  induction entries with
  | nil => rfl
  | cons first rest ih =>
    obtain ⟨key, entry⟩ := first
    rw [pick, List.filterMap_cons, Entries.get?]
    by_cases hkey : key = name
    · subst hkey
      have hnone : (pick select rest).get? key = none := by
        rw [ih h.tail, h.get?_tail]
        rfl
      rw [if_pos rfl, Option.bind_some]
      cases select entry with
      | none => exact hnone
      | some a => simp [Entries.get?]
    · rw [if_neg hkey, ← ih h.tail]
      cases select entry with
      | none => rfl
      | some a =>
        show Entries.get? ((key, a) :: pick select rest) name = _
        rw [Entries.get?, if_neg hkey]

/-- The entries of one sort stay in the order of their names. -/
theorem ordered_pick {α : Type} (select : Entry → Option α) {entries : Entries Entry}
    (h : entries.Ordered) : (pick select entries).Ordered := by
  refine h.of_keys ?_
  clear h
  induction entries with
  | nil => exact List.Sublist.refl _
  | cons first rest ih =>
    obtain ⟨key, entry⟩ := first
    rw [pick, List.filterMap_cons]
    cases select entry with
    | none => exact ih.cons key
    | some a => exact ih.cons_cons key

/-- The parts of a schema are its entries, sorted. -/
theorem ofEntries_eq (entries : Entries Entry) :
    (ofEntries entries).fields = pick Entry.field? entries ∧
      (ofEntries entries).references = pick Entry.reference? entries ∧
        (ofEntries entries).relations = pick Entry.relation? entries := by
  induction entries with
  | nil => exact ⟨rfl, rfl, rfl⟩
  | cons first rest ih =>
    obtain ⟨name, entry⟩ := first
    obtain ⟨hfields, hreferences, hrelations⟩ := ih
    cases entry with
    | field f => exact ⟨congrArg ((name, f) :: ·) hfields, hreferences, hrelations⟩
    | reference r => exact ⟨hfields, congrArg ((name, r) :: ·) hreferences, hrelations⟩
    | relation r => exact ⟨hfields, hreferences, congrArg ((name, r) :: ·) hrelations⟩

/-- The declarations of a schema are those of its entries. -/
theorem toDeclarations_ofEntries {entries : Entries Entry} (h : entries.Ordered) :
    (ofEntries entries).toDeclarations = entries.mapValues Entry.declare := by
  obtain ⟨hfields, hreferences, hrelations⟩ := ofEntries_eq entries
  rw [Schema.toDeclarations, declareFields_eq, hfields, hreferences, hrelations]
  have hordered := ((ordered_pick Entry.field? h).mapValues Field.declare)
  refine ((hordered.insertAll _).insertAll _).ext (h.mapValues _) fun name => ?_
  rw [Entries.get?_insertAll _ ((ordered_pick _ h).mapValues _).distinct,
    Entries.get?_insertAll _ ((ordered_pick _ h).mapValues _).distinct,
    Entries.get?_mapValues, Entries.get?_mapValues, Entries.get?_mapValues, Entries.get?_mapValues,
    get?_pick _ h, get?_pick _ h, get?_pick _ h]
  cases entries.get? name with
  | none => rfl
  | some entry => cases entry <;> rfl

/-! ## Entries resolve to themselves -/

/-- A resolved entry, declared again, is resolved to itself with its warnings. -/
theorem resolveEntry_declare {entry : Entry} (h : entry.Resolved) (name : String) :
    resolveEntry name entry.declare = .ok (entry, entry.warnings name) := by
  cases entry with
  | field f =>
    have hf := resolveField_declare f h name
    obtain ⟨kind, optional, sortable, indexed, default⟩ := f
    show resolveEntry name (Field.declare _) = _
    rw [Field.declare] at hf ⊢
    obtain ⟨hreference, hrelation⟩ := kind.name.label_ne_link
    obtain ⟨hkind, _⟩ :=
      flags_declare kind (Field.flags kind.name optional sortable indexed default)
    have hname : (kind.declare (Field.flags kind.name optional sortable indexed default)).kind =
      kind.name.label := hkind
    rw [resolveEntry, hname, if_neg hreference, if_neg hrelation, hf]
    rfl
  | reference r =>
    have htarget : Target.read r.target.label = r.target := h
    show resolveEntry name r.declare = _
    rw [Reference.declare, resolveEntry, if_pos rfl, required, ok_bind, htarget]
    rfl
  | relation r =>
    obtain ⟨target, optional, indexed, edge⟩ := r
    obtain ⟨htarget, hedge⟩ := h
    have htarget : Target.read target.label = target := htarget
    show resolveEntry name (Relation.declare _) = _
    have hne : ¬"relation" = "reference" := by decide
    rw [Relation.declare, resolveEntry, if_neg hne, if_pos rfl, required, ok_bind, htarget]
    cases edge with
    | none => rfl
    | some fields =>
      obtain ⟨_, hfields⟩ := hedge fields rfl
      dsimp only [Option.map_some]
      rw [resolveFields_declare fields hfields]
      rfl

/-- The declarations of entries resolve to the schema of the entries. -/
theorem ofDeclarations_declared {entries : Entries Entry}
    (h : ∀ e ∈ entries, e.1.toList.head? ≠ some reservedStart ∧ e.2.Resolved) :
    Schema.ofDeclarations (entries.mapValues Entry.declare) = .ok (ofEntries entries) := by
  induction entries with
  | nil => rfl
  | cons first rest ih =>
    obtain ⟨name, entry⟩ := first
    obtain ⟨⟨hname, hentry⟩, hrest⟩ := List.forall_mem_cons.1 h
    show Schema.ofDeclarations ((name, entry.declare) :: Entries.mapValues Entry.declare rest) = _
    rw [Schema.ofDeclarations, checkName, if_neg hname, ok_bind, resolveEntry_declare hentry, ok_bind]
    dsimp only
    rw [ih hrest]
    rfl

/-! ## Entries of accepted declarations -/

/-- What is sound about an entry and its warnings; `p` holds of the options it came from. -/
structure SoundEntry (p : Attributes → Prop) (name : String) (entry : Entry)
    (warnings : List Warning) : Prop where
  resolved : entry.Resolved
  warnings_eq : warnings = entry.warnings name
  portable : (∀ a, p a → a.Portable) → entry.declare.Satisfies Attributes.Portable

/-- A sound field with its warnings is a sound entry. -/
theorem SoundEntry.of_field {p : Attributes → Prop} {name : String} {f : Field}
    {warnings : List Warning} (h : SoundField p name true f warnings) :
    SoundEntry p name (.field f) warnings :=
  ⟨h.resolved, h.warnings_eq, h.portable⟩

/-- The options of a link have no values that a tree could not hold. -/
theorem portable_link {kind : String} {optional indexed : Option Bool} {target : Option String} :
    Attributes.Portable { kind, optional, indexed, target } :=
  ⟨by rintro ⟨⟩, by rintro x ⟨⟩, by rintro x ⟨⟩⟩

/-- Resolution of a declaration at the top level is sound. -/
theorem sound_resolveEntry {p : Attributes → Prop} (hp : ∀ a, p a → a.WellFormed) {d : Declaration}
    (hd : d.Satisfies p) {name : String} {entry : Entry} {ws : List Warning}
    (h : resolveEntry name d = .ok (entry, ws)) : SoundEntry p name entry ws := by
  cases resolvesEntry_of_resolveEntry h with
  | field _ hfield => exact .of_field (sound_resolveField hp d hd hfield)
  | reference a target _ =>
    exact ⟨Target.resolved_read target, rfl, fun _ => ⟨portable_link, trivial, trivial, trivial⟩⟩
  | relation a target _ =>
    exact ⟨⟨Target.resolved_read target, by rintro _ ⟨⟩⟩, rfl,
      fun _ => ⟨portable_link, trivial, trivial, trivial⟩⟩
  | described a target declarations _ hfields =>
    obtain ⟨_, _, _, hedge⟩ := hd
    have hsound := sound_resolveFields hp declarations hedge.2 hfields
    have hordered := hsound.ordered hedge.1
    refine ⟨⟨Target.resolved_read target, ?_⟩, hsound.warnings_eq, fun hall =>
      ⟨portable_link, trivial, trivial, ordered_declareFields hordered, hsound.portable hall⟩⟩
    rintro _ ⟨⟩
    exact ⟨hordered, hsound.resolved⟩

/-- What is sound about the entries of a schema. -/
structure SoundEntries (p : Attributes → Prop) (declarations : Declarations)
    (entries : Entries Entry) : Prop where
  keys : entries.keys = declarations.keys
  resolved : ∀ e ∈ entries, e.1.toList.head? ≠ some reservedStart ∧ e.2.Resolved
  portable : (∀ a, p a → a.Portable) →
    declarationsSatisfy Attributes.Portable (entries.mapValues Entry.declare)

/-- Accepted declarations give the schema of their entries. -/
theorem exists_entries {p : Attributes → Prop} (hp : ∀ a, p a → a.WellFormed)
    {declarations : Declarations} (hdeclarations : declarationsSatisfy p declarations)
    {schema : Schema} (h : Schema.ofDeclarations declarations = .ok schema) :
    ∃ entries, SoundEntries p declarations entries ∧ schema = ofEntries entries := by
  induction declarations generalizing schema with
  | nil =>
    obtain rfl := Except.ok.inj h
    exact ⟨[], ⟨rfl, by simp, fun _ => trivial⟩, rfl⟩
  | cons first rest ih =>
    obtain ⟨name, declaration⟩ := first
    obtain ⟨entry, own, later, hname, hentry, hlater, rfl⟩ := ofDeclarations_cons_eq_ok h
    obtain ⟨entries, hentries, rfl⟩ := ih hdeclarations.2 hlater
    have hsound := sound_resolveEntry hp hdeclarations.1 hentry
    refine ⟨(name, entry) :: entries, ⟨congrArg (name :: ·) hentries.keys, ?_, ?_⟩, ?_⟩
    · exact List.forall_mem_cons.2 ⟨⟨checkName_eq_ok hname, hsound.resolved⟩, hentries.resolved⟩
    · exact fun hall => ⟨hsound.portable hall, hentries.portable hall⟩
    · rw [hsound.warnings_eq]
      rfl

/-- Entries are in the order of the declarations that they came from. -/
theorem SoundEntries.ordered {p : Attributes → Prop} {declarations : Declarations}
    {entries : Entries Entry} (h : SoundEntries p declarations entries)
    (hordered : Entries.Ordered declarations) : entries.Ordered :=
  hordered.of_keys_eq h.keys

/-- The fields among resolved entries are resolved. -/
theorem fieldsResolved_pick {entries : Entries Entry}
    (h : ∀ e ∈ entries, e.1.toList.head? ≠ some reservedStart ∧ e.2.Resolved) :
    fieldsResolved true (pick Entry.field? entries) := by
  induction entries with
  | nil => exact trivial
  | cons first rest ih =>
    obtain ⟨name, entry⟩ := first
    obtain ⟨⟨hname, hentry⟩, hrest⟩ := List.forall_mem_cons.1 h
    cases entry with
    | field f => exact ⟨hname, hentry, ih hrest⟩
    | reference r => exact ih hrest
    | relation r => exact ih hrest

end Resolution

/-! ## Canonical schemas -/

/-- What every canonical schema satisfies: its fields are resolved and in key order, and none of
them has the name of a link. -/
structure Schema.Sound (schema : Schema) : Prop where
  ordered : schema.fields.Ordered
  resolved : fieldsResolved true schema.fields
  apart : ∀ name, schema.fields.contains name = true →
    schema.references.contains name = false ∧ schema.relations.contains name = false

/-- Every field of a resolved level is resolved. -/
theorem fieldResolved_of_mem {inherited : Bool} {fields : Entries Field}
    (h : fieldsResolved inherited fields) : ∀ e ∈ fields, e.2.Resolved inherited :=
  forall_mem_of_cons (fun _ _ h => h.2) h

/-- Every position of a resolved tuple is resolved. -/
theorem elementResolved_of_mem {indexed : Bool} {positions : List Element}
    (h : positionsResolved indexed positions) :
    ∀ element ∈ positions, element.Resolved indexed :=
  forall_mem_of_cons (fun _ _ h => h) h

/-- A field keeps its default. -/
theorem Schema.Sound.keeps {schema : Schema} (h : schema.Sound) {e : String × Field}
    (he : e ∈ schema.fields) {v : Value} (hv : e.2.default = some v) : e.2.kind.Keeps v := by
  have hfield := fieldResolved_of_mem h.resolved e he
  obtain ⟨name, kind, optional, sortable, indexed, default⟩ := e
  exact hfield.2.2.2 v hv

/-- The fields on the edges of a relation are resolved. -/
theorem Schema.IsCanonical.edges_resolved {schema : Schema} (h : schema.IsCanonical) :
    ∀ e ∈ schema.relations, ∀ fields, e.2.edge = some fields → fieldsResolved true fields := by
  obtain ⟨declarations, ⟨_, hsatisfy⟩, h⟩ := h
  obtain ⟨entries, hentries, rfl⟩ := Resolution.exists_entries (fun _ ha => ha) hsatisfy h
  intro e he fields hedge
  rw [(Resolution.ofEntries_eq entries).2.2] at he
  obtain ⟨⟨name, entry⟩, hentry, he⟩ := List.mem_filterMap.1 he
  obtain ⟨r, hr, rfl⟩ := Option.map_eq_some_iff.1 he
  have hresolved := (hentries.resolved _ hentry).2
  cases entry with
  | relation s =>
    obtain rfl := Option.some.inj hr
    exact (hresolved.2 fields hedge).2
  | field f => cases hr
  | reference s => cases hr

/-- A canonical schema is sound. -/
theorem Schema.IsCanonical.sound {schema : Schema} (h : schema.IsCanonical) : schema.Sound := by
  obtain ⟨declarations, ⟨hordered, hsatisfy⟩, h⟩ := h
  obtain ⟨entries, hentries, rfl⟩ := Resolution.exists_entries (fun _ ha => ha) hsatisfy h
  have hentriesOrdered := hentries.ordered hordered
  obtain ⟨hfields, hreferences, hrelations⟩ := Resolution.ofEntries_eq entries
  refine ⟨hfields ▸ Resolution.ordered_pick _ hentriesOrdered,
    hfields ▸ Resolution.fieldsResolved_pick hentries.resolved, ?_⟩
  intro name hname
  rw [hfields, Entries.contains, Resolution.get?_pick _ hentriesOrdered] at hname
  rw [hreferences, hrelations, Entries.contains, Entries.contains,
    Resolution.get?_pick _ hentriesOrdered, Resolution.get?_pick _ hentriesOrdered]
  cases hget : entries.get? name with
  | none => exact ⟨rfl, rfl⟩
  | some entry =>
    rw [hget] at hname
    cases entry with
    | field f => exact ⟨rfl, rfl⟩
    | reference r => cases hname
    | relation r => cases hname

end DocumentSchema
