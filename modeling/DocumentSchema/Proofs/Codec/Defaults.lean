import DocumentSchema.Proofs.Codec.Tree
import DocumentSchema.Proofs.Index.TreePaths
import DocumentSchema.Proofs.Schema.Guarantees

/-!
# Defaults are written

A default is coerced when a schema is resolved and written when a document without the field is
encoded. What coercion keeps is a value that the kind can write, at every depth: `Kind.Keeps` asks
for everything that the encoder checks (`Tree.succeeds_encodeKind`). A default of an object may leave
out fields that have defaults of their own. These are written in their place, and they too are kept,
so a document that names no field is always encoded (`Schema.encodeTree_defaults`).
-/

set_option autoImplicit false

namespace DocumentSchema.Tree

open Outcome

/-! ## Leaves -/

/-- What a field of a leaf kind keeps as its default passes the checks of the encoder. -/
theorem succeeds_encodeLeaf {kind : Kind} {v : Value} (h : kind.KeepsLeaf v) (path : String) :
    Succeeds (encodeKind path kind v) := by
  cases kind with
  | string separator caseSensitive =>
    obtain ⟨s, rfl⟩ := h
    exact succeeds_ok _
  | text weight phonetic =>
    obtain ⟨s, rfl⟩ := h
    exact succeeds_ok _
  | number literals =>
    obtain ⟨x, rfl, hadmits⟩ := h
    have hnumber : Admission.number path literals (.number (.finite x)) = .ok x :=
      Admission.number_iff.2 ⟨rfl, hadmits⟩
    exact (succeeds_map _).2 ⟨x, hnumber⟩
  | bigInt literals =>
    obtain ⟨i, rfl, hadmits⟩ := h
    exact (succeeds_map _).2 ⟨i, if_pos hadmits⟩
  | boolean =>
    obtain ⟨b, rfl⟩ := h
    exact succeeds_ok _
  | date =>
    obtain ⟨m, rfl, hmillis⟩ := h
    obtain ⟨t, ht, _⟩ := Option.map_eq_some_iff.1 hmillis
    have hdate : Admission.date path (.number (Floating.ofInt .binary64 m)) = .ok t :=
      Admission.date_iff.2 ht
    exact (succeeds_map _).2 ⟨t, hdate⟩
  | point =>
    obtain ⟨p, rfl, hvalid⟩ := h
    exact (succeeds_map _).2 ⟨p, if_pos hvalid⟩
  | vector options =>
    obtain ⟨xs, rfl, hlength⟩ := h
    have hvector : Admission.vector path options.dimension
        (.array (xs.map fun x => .number (.finite x))) = .ok xs :=
      Admission.vector_iff.2 ⟨rfl, hlength⟩
    exact (succeeds_bind_pure _).2 ⟨xs, hvector⟩
  | array element separator => exact absurd h id
  | tuple positions => exact absurd h id
  | object fields => exact absurd h id

/-! ## Every depth -/

/-- Items that can be written anywhere are written one by one. -/
theorem succeeds_encodeItems {write : String → Value → Except EncodeError Json} {vs : List Value}
    (h : ∀ v ∈ vs, ∀ path, Succeeds (write path v)) (path : String) (index : Nat) :
    Succeeds (encodeItems path write index vs) := by
  induction vs generalizing index with
  | nil => exact succeeds_ok _
  | cons v vs ih =>
    obtain ⟨hv, hvs⟩ := List.forall_mem_cons.1 h
    rw [encodeItems, succeeds_both]
    exact ⟨hv _, ih hvs (index + 1)⟩

/-- Members that no field describes are written as they are. -/
theorem succeeds_encodeMembers {fields : Entries Field} {skip : String → Bool}
    {write : Document → Except EncodeError (Entries Json)} {doc : Document} :
    Succeeds (encodeMembers fields skip write doc) ↔ Succeeds (write doc) :=
  succeeds_bind_pure _

mutual

/-- What a field of a kind keeps as its default is written. -/
theorem succeeds_encodeKind (kind : Kind) {indexed : Bool} (hkind : kind.Resolved indexed)
    {v : Value} (h : kind.Keeps v) (path : String) : Succeeds (encodeKind path kind v) := by
  cases kind with
  | array element separator =>
    rcases h with rfl | ⟨vs, rfl, hvs⟩
    · exact succeeds_ok _
    · have hitems := succeeds_encodeItems (fun w hw below =>
        succeeds_encodeElement element hkind.2 (hvs w hw) below) path 0
      exact (succeeds_bind_pure Json.array).2 hitems
  | tuple positions =>
    rcases h with rfl | ⟨vs, rfl, hvs⟩
    · exact succeeds_ok _
    · obtain ⟨hlength, hpositions⟩ := succeeds_encodePositions positions hkind.2.2 hvs path 0
      show Succeeds (if vs.length ≠ positions.length then _
        else encodePositions path 0 positions vs >>= fun jsons => pure (Json.array jsons))
      rw [if_neg (not_not.2 hlength), succeeds_bind_pure]
      exact hpositions
  | object fields =>
    rcases h with rfl | ⟨members, rfl, _, _, hmembers⟩
    · exact succeeds_ok _
    · have hfields := succeeds_encodeFields fields hkind.2 hmembers path
      exact (succeeds_map Json.object).2 (succeeds_encodeMembers.2 hfields)
  | _ =>
    rcases (Default.keeps_leaf rfl).1 h with rfl | h
    · exact succeeds_ok _
    · exact succeeds_encodeLeaf h path
termination_by structural kind

/-- What an element keeps as a default can be written. -/
theorem succeeds_encodeElement (element : Element) {indexed : Bool}
    (helement : element.Resolved indexed) {v : Value} (h : element.Keeps v) (path : String) :
    Succeeds (encodeElement path element v) := by
  cases element with
  | scalar kind =>
    rw [encodeElement, encodeScalar_eq]
    rcases h with rfl | h
    · cases kind <;> exact succeeds_ok _
    · exact succeeds_encodeLeaf h path
  | object fields =>
    obtain ⟨members, rfl, _, _, hmembers⟩ := h
    have hfields := succeeds_encodeFields fields helement.2 hmembers path
    exact (succeeds_map Json.object).2 (succeeds_encodeMembers.2 hfields)
termination_by structural element

/-- What the positions of a tuple keep is written, and there is one value for each. -/
theorem succeeds_encodePositions (positions : List Element) {indexed : Bool}
    (hpositions : positionsResolved indexed positions) {vs : List Value}
    (h : positionsKeep positions vs) (path : String) (index : Nat) :
    vs.length = positions.length ∧ Succeeds (encodePositions path index positions vs) := by
  cases positions with
  | nil =>
    cases vs with
    | nil => exact ⟨rfl, succeeds_ok _⟩
    | cons v vs => exact absurd h id
  | cons element elements =>
    cases vs with
    | nil => exact absurd h id
    | cons v vs =>
      obtain ⟨hv, hvs⟩ := h
      obtain ⟨hlength, hrest⟩ :=
        succeeds_encodePositions elements hpositions.2 hvs path (index + 1)
      refine ⟨congrArg Nat.succ hlength, ?_⟩
      rw [encodePositions, succeeds_both]
      exact ⟨succeeds_encodeElement element hpositions.1 hv _, hrest⟩
termination_by structural positions

/-- A level is written if the members that are there are kept; for a field that is not there its
default is. -/
theorem succeeds_encodeFields (fields : List (String × Field)) {indexed : Bool}
    (hfields : fieldsResolved indexed fields) {doc : Document} (h : fieldsKeep fields doc)
    (path : String) : Succeeds (encodeFields path fields doc) := by
  cases fields with
  | nil => exact succeeds_ok _
  | cons first rest =>
    obtain ⟨name, kind, optional, sortable, isIndexed, default⟩ := first
    obtain ⟨_, ⟨_, _, hkind, hdefault⟩, hfieldsRest⟩ := hfields
    obtain ⟨hkeep, hkeepRest⟩ := h
    have hrest := succeeds_encodeFields rest hfieldsRest hkeepRest path
    have heffective : ∀ v, effective doc name default = some v → kind.Keeps v := by
      intro v hv
      unfold effective at hv
      split at hv
      next w hw =>
        obtain rfl := Option.some.inj hv
        exact hkeep w hw
      next => exact hdefault v hv
    rw [encodeFields]
    cases hv : effective doc name default with
    | none => exact hrest
    | some v =>
      dsimp only
      rw [succeeds_both]
      exact ⟨succeeds_encodeKind kind hkind (heffective v hv) _, hrest⟩
termination_by structural fields

end

end DocumentSchema.Tree

namespace DocumentSchema

open Outcome

/-- Fields keep what a document has if it has none of them. -/
theorem fieldsKeep_of_absent {fields : Entries Field} {doc : Document}
    (h : ∀ name ∈ fields.keys, name ∉ Entries.keys doc) : fieldsKeep fields doc := by
  induction fields with
  | nil => exact trivial
  | cons first rest ih =>
    obtain ⟨name, kind, optional, sortable, indexed, default⟩ := first
    obtain ⟨hname, hrest⟩ := List.forall_mem_cons.1 h
    refine ⟨?_, ih hrest⟩
    intro v hv
    have hmem : name ∈ Entries.keys doc := List.mem_map_of_mem (Entries.mem_of_get? hv)
    exact absurd hmem hname

/-- A document is encoded if each field that it has holds a value that could be its default. -/
theorem Schema.Sound.exists_encodeTree {schema : Schema} (h : schema.Sound) {doc : Document}
    (hdoc : fieldsKeep schema.fields doc) :
    ∃ members, Tree.encodeMembers schema.fields schema.isLink (Tree.encodeFields "" schema.fields)
      doc = .ok members ∧ schema.encodeTree doc = .ok (.object members) := by
  have hfields := Tree.succeeds_encodeFields schema.fields h.resolved hdoc ""
  obtain ⟨members, hmembers⟩ := Tree.succeeds_encodeMembers.2 hfields
  refine ⟨members, hmembers, ?_⟩
  rw [Schema.encodeTree, hmembers]
  rfl

/-- In place of a field that is not there stands the tree of its default, or nothing. -/
theorem Schema.Sound.default_written {schema : Schema} (h : schema.Sound) {doc : Document}
    {members : Entries Json}
    (hwrite : Tree.encodeMembers schema.fields schema.isLink (Tree.encodeFields "" schema.fields)
      doc = .ok members) {e : String × Field} (he : e ∈ schema.fields)
    (habsent : e.1 ∉ Entries.keys doc) :
    e.2.default = none ∧ members.get? e.1 = none ∨
      ∃ v tree, e.2.default = some v ∧ members.get? e.1 = some tree ∧
        Tree.encodeKind e.1 e.2.kind v = .ok tree := by
  have hfield : schema.fields.get? e.1 = some e.2 := h.ordered.distinct.get?_of_mem he
  have hdefault : effective doc e.1 e.2.default = e.2.default := by
    have hnone : Entries.get? doc e.1 = none := by
      refine Entries.get?_eq_none_iff.2 ?_
      intro d hd heq
      exact habsent (heq ▸ List.mem_map_of_mem hd)
    rw [effective, hnone]
  rw [← hdefault]
  exact Tree.get?_encodeLevel h.ordered hwrite hfield

/-- A schema that was accepted never refuses a document for one of its defaults. A document with none
of its fields is encoded, whatever else is in it: each field with a default has the tree of the default
in its place, the other fields are left out. And every default is encoded wherever its field stands, on
the edges of relations, in objects, or in the elements of arrays and tuples. -/
theorem Schema.encodeTree_defaults {declarations : Declarations}
    (hdeclarations : declarations.WellFormed) {schema : Schema}
    (h : Schema.ofDeclarations declarations = .ok schema) :
    (∀ doc : Document, (∀ name ∈ schema.fields.keys, name ∉ Entries.keys doc) →
      ∃ members, schema.encodeTree doc = .ok (.object members) ∧
        ∀ e ∈ schema.fields,
          e.2.default = none ∧ Entries.get? members e.1 = none ∨
            ∃ v tree, e.2.default = some v ∧ Entries.get? members e.1 = some tree ∧
              Tree.encodeKind e.1 e.2.kind v = .ok tree) ∧
    ∀ o ∈ schema.occurrences declarations.keys, ∀ v, o.field.default = some v →
      ∀ path, ∃ tree, Tree.encodeKind path o.field.kind v = .ok tree := by
  have hcanonical : schema.IsCanonical := ⟨declarations, hdeclarations, h⟩
  constructor
  · intro doc hdoc
    obtain ⟨members, hmembers, htree⟩ :=
      hcanonical.sound.exists_encodeTree (fieldsKeep_of_absent hdoc)
    refine ⟨members, htree, ?_⟩
    intro e he
    exact hcanonical.sound.default_written hmembers he (hdoc e.1 (List.mem_map_of_mem he))
  · intro o ho v hv path
    obtain ⟨_, inherited, hfield⟩ := Schema.occurrences_resolved hdeclarations h o ho
    obtain ⟨path', name, kind, optional, sortable, indexed, default⟩ := o
    obtain ⟨_, _, hkind, hdefault⟩ := hfield
    exact Tree.succeeds_encodeKind kind hkind (hdefault v hv) path

/-! ## A festival -/

/-- Defaults at every depth: an integer among literals and dates, given as texts, and objects that leave
fields to their own defaults. -/
def festivalDeclarations : Declarations :=
  [("fee", .full { kind := "bigint", literals := some [.string "45", .string "60"],
                   default := some (.string "45") } none none none),
    ("host", .full { kind := "relation", target := some "Person" } none none
      (some [("since", .full
        { kind := "date", default := some (.string "1970-01-01T00:00:02Z") } none none none)])),
    ("opens", .full { kind := "date", default := some (.string "1970-01-01T00:00:01Z") }
      none none none),
    ("slots", .full { kind := "array", default := some (.array [.object []]) }
      (some (.fields [("band", .full { kind := "string", default := some (.bool true) }
        none none none)])) none none),
    ("span", .full { kind := "tuple", default := some (.array [.null, .object []]) }
      (some (.positions [.kind "number", .fields [("open", .full
        { kind := "boolean", default := some (.bool false) } none none none)]])) none none),
    ("stage", .full { kind := "object", default := some (.object [("name", .string "North")]) } none
      (some [("name", .shorthand "string"),
        ("seats", .full { kind := "number",
                          default := some (.number (.integer 300 (by decide) (by decide))) }
          none none none)])
      none)]

/-- The schema that a festival is declared with. -/
def festivalSchema : Schema where
  fields := [
    ("fee", .mk (.bigInt (some [⟨45, by decide, by decide⟩, ⟨60, by decide, by decide⟩])) false
      false true (some (.bigInt ⟨45, by decide, by decide⟩))),
    ("opens", .mk .date false false true (some (.number (Floating.ofInt .binary64 1000)))),
    ("slots", .mk (.array (.object [("band", .mk (.string ',' false) false false false
      (some (.string "true")))]) ',') false false false (some (.array [.object []]))),
    ("span", .mk (.tuple [.scalar .number, .object [("open", .mk .boolean false false true
      (some (.bool false)))]]) false false true (some (.array [.null, .object []]))),
    ("stage", .mk (.object [("name", .ofKind (.string ',' false)),
      ("seats", .mk (.number none) false false true
        (some (.number (Floating.ofInt .binary64 300))))]) false false true
      (some (.object [("name", .string "North")])))]
  references := []
  relations := [("host", ⟨.named "Person", false, true, some [("since",
    .mk .date false false true (some (.number (Floating.ofInt .binary64 2000))))]⟩)]
  warnings := [.unsearchableArray "slots"]

/-- A festival with a note alone is written, and so is the default of a date inside. -/
theorem Schema.encodeTree_defaults_festival :
    festivalDeclarations.WellFormed ∧
      Schema.ofDeclarations festivalDeclarations = .ok festivalSchema ∧
      (∀ name ∈ festivalSchema.fields.keys, name ∉ Entries.keys [("note", Value.string "rain")]) ∧
      (∃ members, festivalSchema.encodeTree [("note", .string "rain")] = .ok (.object members)) ∧
      ∀ path, ∃ tree, Tree.encodeKind path .date (.number (Floating.ofInt .binary64 2000)) =
        .ok tree := by
  have hdeclarations : festivalDeclarations.WellFormed := by
    refine ⟨by decide, ?_⟩
    simp +decide [festivalDeclarations, declarationsSatisfy, Declaration.Satisfies,
      declarationsSatisfy?, elementsSatisfy?, Elements.Satisfy, positionsSatisfy,
      Position.Satisfies, Attributes.WellFormed, Json.WellFormed, itemsWellFormed,
      membersWellFormed]
  have hresolved : Schema.ofDeclarations festivalDeclarations = .ok festivalSchema := rfl
  have hfree : ∀ name ∈ festivalSchema.fields.keys,
      name ∉ Entries.keys [("note", Value.string "rain")] := by decide
  obtain ⟨hencoded, hdefaults⟩ := Schema.encodeTree_defaults hdeclarations hresolved
  obtain ⟨members, hmembers, _⟩ := hencoded _ hfree
  -- the date on the edges of the relation
  have hsince := hdefaults ⟨"host.meta.since", "since", .mk .date false false true
    (some (.number (Floating.ofInt .binary64 2000)))⟩
  refine ⟨hdeclarations, hresolved, hfree, ⟨members, hmembers⟩, hsince ?_ _ rfl⟩
  exact List.mem_of_getElem? (i := 1) rfl

/-- Fields that a default leaves out are written with their own defaults. -/
example : festivalSchema.encodeTree [("note", .string "rain")] = .ok (.object [
    ("fee", .string "45"), ("note", .string "rain"),
    ("opens", .number (.integer 1000 (by decide) (by decide))),
    ("slots", .array [.object [("band", .string "true")]]),
    ("span", .array [.null, .object [("open", .bool false)]]),
    ("stage", .object [("name", .string "North"),
      ("seats", Tree.numberTree ⟨false, 5277655813324800, -44, by decide⟩)])]) := rfl

end DocumentSchema
