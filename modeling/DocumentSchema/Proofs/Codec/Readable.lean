import DocumentSchema.Proofs.Codec.Tree

/-!
# Trees that can be read again

Writing may put a null into a tree where reading refuses one. An item of an array may be a null or,
among texts, a number that no tree can hold; the default of an array may have such items; and where
a tuple has an object a document may have a null. `kindReadable` says that no null stands in these
places, and that no date lies in a leap second at the end of time. A document that was written as a
tree can be read from it exactly if it is readable (`Schema.decodeTree_succeeds_iff`).
-/

set_option autoImplicit false

namespace DocumentSchema.Tree

open Outcome

/-- Whether a text is written as a null: a null, or a number that no tree can hold. -/
def textWritesNull : Value → Bool
  | .number x => !x.isFinite
  | v => v.isNull

/-- Whether an element is written as a null. -/
def writesNull : Element → Value → Bool
  | .scalar .string, v => textWritesNull v
  | .scalar .text, v => textWritesNull v
  | _, v => v.isNull

/-- A value with milliseconds in range, if it denotes an instant. -/
def dateReadable (v : Value) : Prop := ∀ t, v.toInstant? = some t → t.MillisInRange

mutual

/-- A value of a field of a kind that can be read from the tree that is written for it. -/
def kindReadable : Kind → Value → Prop
  | .date, v => dateReadable v
  | .array element _, .array vs =>
    ∀ w ∈ vs, writesNull element w = false ∧ elementReadable element w
  | .tuple positions, .array vs => positionsReadable positions vs
  | .object fields, .object doc => fieldsReadable fields doc
  | _, _ => True
termination_by structural kind => kind

/-- An element that can be read from the tree that is written for it; an object must be there. -/
def elementReadable : Element → Value → Prop
  | .scalar .date, v => dateReadable v
  | .scalar _, _ => True
  | .object fields, .object doc => fieldsReadable fields doc
  | .object _, _ => False
termination_by structural element => element

/-- Values at the positions of a tuple that can be read again. -/
def positionsReadable : List Element → List Value → Prop
  | element :: elements, v :: vs => elementReadable element v ∧ positionsReadable elements vs
  | _, _ => True
termination_by structural elements => elements

/-- A document whose fields, defaults included, can be read again. -/
def fieldsReadable : List (String × Field) → Document → Prop
  | [], _ => True
  | (name, .mk kind _ _ _ default) :: rest, doc =>
    (match effective doc name default with
      | some v => kindReadable kind v
      | none => True) ∧ fieldsReadable rest doc
termination_by structural fields => fields

end

/-! ## Leaves -/

/-- A null can be read back in every kind of field. -/
theorem kindReadable_null (kind : Kind) : kindReadable kind .null := by
  cases kind with
  | date =>
    intro t ht
    cases ht
  | _ => trivial

/-- A null is written as null in every kind of field. -/
theorem encodeKind_null (path : String) (kind : Kind) : encodeKind path kind .null = .ok .null := by
  cases kind <;> rfl

/-- A null is read as null in every kind of field. -/
theorem decodeKind_null (path : String) (kind : Kind) : decodeKind path kind .null = .ok .null := by
  cases kind <;> rfl

/-- A text is read again, and so is the null for a number that no tree can hold. -/
theorem succeeds_text {path : String} {v : Value} {json : Json}
    (hwrite : encodeText path v = .ok json) (below : String) :
    Succeeds (if json.isNull then .ok Value.null else decodeText below json) := by
  cases v with
  | string s =>
    obtain rfl := Except.ok.inj hwrite
    exact succeeds_ok _
  | number x =>
    obtain rfl := Except.ok.inj hwrite
    cases x <;> exact succeeds_ok _
  | bool b =>
    obtain rfl := Except.ok.inj hwrite
    exact succeeds_ok _
  | bigInt i =>
    obtain rfl := Except.ok.inj hwrite
    exact succeeds_ok _
  | _ => cases hwrite

/-- A date is read again if its milliseconds lie in range. -/
theorem succeeds_decodeDate (path : String) (t : Instant) :
    Succeeds (decodeDate path (.ofInstant t)) ↔ t.MillisInRange := by
  have hread : (Json.ofInstant t).toBinary?.bind instantOfMillis? = Instant.ofMillis? t.millis :=
    instantOfMillis?_millis t
  rw [t.millisInRange_iff, decodeDate, hread]
  cases Instant.ofMillis? t.millis with
  | none => simp [not_succeeds_error]
  | some u => simp [succeeds_ok]

/-- A value of a leaf kind can be read again, unless it is a date out of range. -/
theorem succeeds_leaf {kind : Kind} (hleaf : kind.isLeaf = true) {v : Value} {path : String}
    {json : Json} (hwrite : encodeKind path kind v = .ok json) (below : String) :
    Succeeds (decodeKind below kind json) ↔ kindReadable kind v := by
  by_cases hnull : v = .null
  · rw [hnull, encodeKind_null] at hwrite
    rw [hnull, ← Except.ok.inj hwrite, decodeKind_null]
    exact iff_of_true (succeeds_ok _) (kindReadable_null kind)
  have hvalue : v.isNull = false := by
    cases v <;> first | rfl | exact absurd rfl hnull
  rw [encodeKind.eq_def] at hwrite
  dsimp only at hwrite
  rw [hvalue, if_neg Bool.false_ne_true] at hwrite
  cases kind with
  | string separator caseSensitive => exact iff_of_true (succeeds_text hwrite below) trivial
  | text weight phonetic => exact iff_of_true (succeeds_text hwrite below) trivial
  | number literals =>
    obtain ⟨x, _, rfl⟩ := map_eq_ok.1 hwrite
    exact iff_of_true (succeeds_ok _) trivial
  | bigInt literals =>
    obtain ⟨i, _, rfl⟩ := map_eq_ok.1 hwrite
    have hread : decodeBigInt below (.string i.text) = .ok (.bigInt i) := by
      rw [decodeBigInt, Json.toInt128?, Int128.read_text]
    exact iff_of_true ⟨_, hread⟩ trivial
  | boolean =>
    obtain ⟨b, _, rfl⟩ := map_eq_ok.1 hwrite
    exact iff_of_true (succeeds_ok _) trivial
  | date =>
    obtain ⟨t, ht, rfl⟩ := map_eq_ok.1 hwrite
    have hinstant := Admission.date_iff.1 ht
    have hread := succeeds_decodeDate below t
    refine hread.trans ⟨?_, fun h => h t hinstant⟩
    intro hrange u hu
    rw [hinstant] at hu
    rwa [← Option.some.inj hu]
  | point =>
    obtain ⟨p, hp, rfl⟩ := map_eq_ok.1 hwrite
    obtain ⟨q, rfl⟩ := Admission.exists_of_point hp
    obtain ⟨rfl, hvalid⟩ := Admission.point_eq_ok hp
    exact iff_of_true ⟨_, decodePoint_text hvalid below⟩ trivial
  | vector options =>
    obtain ⟨xs, _, hwrite⟩ := bind_eq_ok.1 hwrite
    obtain rfl := pure_eq_ok.1 hwrite
    exact iff_of_true ⟨_, decodeKind_vector below options xs⟩ trivial
  | array element separator => cases hleaf
  | tuple positions => cases hleaf
  | object fields => cases hleaf

/-! ## Items and levels -/

/-- A number is null in a tree exactly if it is not finite. -/
theorem isNull_ofBinary (x : Binary64) : (Json.ofBinary x).isNull = !x.isFinite := by
  cases x <;> rfl

/-- A text is written as null exactly for a null and for numbers that are not finite. -/
theorem isNull_encodeText {path : String} {v : Value} {json : Json}
    (hwrite : encodeText path v = .ok json) : json.isNull = textWritesNull v := by
  cases v with
  | number x =>
    obtain rfl := Except.ok.inj hwrite
    exact isNull_ofBinary x
  | string s =>
    obtain rfl := Except.ok.inj hwrite
    rfl
  | bool b =>
    obtain rfl := Except.ok.inj hwrite
    rfl
  | bigInt i =>
    obtain rfl := Except.ok.inj hwrite
    rfl
  | _ => cases hwrite

/-- An element is written as a null exactly where `writesNull` says so. -/
theorem isNull_encodeElement {path : String} {element : Element} {v : Value} {json : Json}
    (hwrite : encodeElement path element v = .ok json) : json.isNull = writesNull element v := by
  cases element with
  | object fields =>
    cases v with
    | null =>
      obtain rfl := Except.ok.inj hwrite
      rfl
    | object doc =>
      obtain ⟨members, _, rfl⟩ := map_eq_ok.1 hwrite
      rfl
    | _ => cases hwrite
  | scalar kind =>
    rw [encodeElement] at hwrite
    unfold encodeScalar at hwrite
    cases hnull : v.isNull with
    | true =>
      rw [hnull, if_pos rfl] at hwrite
      obtain rfl := Except.ok.inj hwrite
      cases v <;> cases hnull
      cases kind <;> rfl
    | false =>
      rw [hnull, if_neg Bool.false_ne_true] at hwrite
      cases kind with
      | string => exact isNull_encodeText hwrite
      | text => exact isNull_encodeText hwrite
      | _ =>
        obtain ⟨_, _, rfl⟩ := map_eq_ok.1 hwrite
        exact hnull.symm

/-- The items of an array are read exactly if none is written as a null and each can be read. -/
theorem succeeds_decodeItems {write : String → Value → Except EncodeError Json}
    {read : String → Json → Except DecodeError Value} {null : Value → Bool} {readable : Value → Prop}
    {vs : List Value}
    (h : ∀ v ∈ vs, ∀ path json, write path v = .ok json →
      json.isNull = null v ∧ ∀ below, Succeeds (read below json) ↔ readable v)
    {path : String} {index : Nat} {jsons : List Json}
    (hwrite : encodeItems path write index vs = .ok jsons) (below : String) (index' : Nat) :
    ((∀ json ∈ jsons, json.isNull = false) ↔ ∀ v ∈ vs, null v = false) ∧
      (Succeeds (decodeItems below read index' jsons) ↔ ∀ v ∈ vs, readable v) := by
  induction vs generalizing index index' jsons with
  | nil =>
    obtain rfl := Except.ok.inj hwrite
    exact ⟨by simp, by simp [decodeItems, succeeds_ok]⟩
  | cons v vs ih =>
    obtain ⟨hv, hvs⟩ := List.forall_mem_cons.1 h
    obtain ⟨json, hjson, hwrite⟩ := bind_eq_ok.1 hwrite
    obtain ⟨rest, hrest, hwrite⟩ := bind_eq_ok.1 hwrite
    obtain rfl := pure_eq_ok.1 hwrite
    obtain ⟨hnull, hread⟩ := hv _ _ hjson
    obtain ⟨hnulls, hreads⟩ := ih hvs hrest (index' + 1)
    constructor
    · rw [List.forall_mem_cons, List.forall_mem_cons, hnull, hnulls]
    · rw [decodeItems, succeeds_both, hread, hreads, List.forall_mem_cons]

/-- The items of an array are looked at before they are read. -/
theorem succeeds_nonNullItems {path : String} {expected : KindName} {jsons : List Json}
    (f : List Json → Except DecodeError Value) :
    Succeeds (nonNullItems path expected (.array jsons) >>= f) ↔
      (∀ json ∈ jsons, json.isNull = false) ∧ Succeeds (f jsons) := by
  by_cases hnulls : ∀ json ∈ jsons, json.isNull = false
  · rw [nonNullItems_eq hnulls, ok_bind]
    exact ⟨fun h => ⟨hnulls, h⟩, fun h => h.2⟩
  · have hfound : jsons.findIdx? Json.isNull ≠ none := by
      intro hnone
      exact hnulls (List.findIdx?_eq_none_iff.1 hnone)
    obtain ⟨index, hindex⟩ := Option.ne_none_iff_exists'.1 hfound
    have herror : nonNullItems path expected (.array jsons) = .error (.nullInArray path index) := by
      rw [nonNullItems, hindex]
    rw [herror]
    exact ⟨fun h => absurd h (not_succeeds_error _), fun h => absurd h.1 hnulls⟩

/-- A level is read exactly if its fields are. -/
theorem succeeds_decodeMembers {fields : Entries Field} {doc : Document} {skip : String → Bool}
    {write : Document → Except EncodeError (Entries Json)}
    {read : Entries Json → Except DecodeError Document} {readable : Prop}
    (h : ∀ inside, write doc = .ok inside →
      ∀ members, Agree fields members inside → (Succeeds (read members) ↔ readable))
    {members : Entries Json} (hwrite : encodeMembers fields skip write doc = .ok members) :
    Succeeds (decodeMembers fields skip read members) ↔ readable := by
  obtain ⟨inside, hinside, hwrite⟩ := bind_eq_ok.1 hwrite
  obtain rfl := pure_eq_ok.1 hwrite
  rw [decodeMembers, succeeds_bind_pure]
  refine h inside hinside _ ?_
  intro name hname
  refine Entries.get?_insertAll_of_absent inside (Entries.get?_eq_none_iff.2 ?_)
  intro e he heq
  rw [Value.membersToJson_eq] at he
  obtain ⟨d, hd, rfl⟩ := List.mem_map.1 he
  have habsent := (mem_undescribed.1 (List.mem_of_mem_filter hd)).2
  rw [show d.1 = name from heq, hname] at habsent
  cases habsent

/-! ## Every depth -/

mutual

/-- What was written for a field of a kind is read exactly if the value is readable. -/
theorem succeeds_decodeKind (kind : Kind) {indexed : Bool} (hkind : kind.Resolved indexed)
    {v : Value} {path : String} {json : Json} (hwrite : encodeKind path kind v = .ok json)
    (below : String) : Succeeds (decodeKind below kind json) ↔ kindReadable kind v := by
  cases kind with
  | array element separator =>
    cases v with
    | null =>
      obtain rfl := Except.ok.inj hwrite
      exact iff_of_true (succeeds_ok _) trivial
    | array vs =>
      obtain ⟨ws, hws, hwrite⟩ := bind_eq_ok.1 hwrite
      obtain rfl := Admission.items_eq_ok hws
      obtain ⟨jsons, hjsons, hwrite⟩ := bind_eq_ok.1 hwrite
      obtain rfl := pure_eq_ok.1 hwrite
      -- the reader refuses a null among the items before it reads any of them
      have hitem : ∀ w ∈ vs, ∀ path json, encodeElement path element w = .ok json →
          json.isNull = writesNull element w ∧
            ∀ below, Succeeds (decodeElement below element json) ↔ elementReadable element w := by
        intro w _ path json hjson
        have hread := succeeds_decodeElement element hkind.2 hjson
        exact ⟨isNull_encodeElement hjson, hread⟩
      obtain ⟨hnulls, hreads⟩ := succeeds_decodeItems hitem hjsons below 0
      show Succeeds (nonNullItems below .array (.array jsons) >>= fun items =>
        decodeItems below (fun path json => decodeElement path element json) 0 items >>= fun vs =>
          pure (Value.array vs)) ↔
        ∀ w ∈ vs, writesNull element w = false ∧ elementReadable element w
      rw [succeeds_nonNullItems, succeeds_bind_pure, hnulls, hreads]
      exact forall₂_and.symm
    | _ => cases hwrite
  | tuple positions =>
    cases v with
    | null =>
      obtain rfl := Except.ok.inj hwrite
      exact iff_of_true (succeeds_ok _) trivial
    | array vs =>
      obtain ⟨ws, hws, hwrite⟩ := bind_eq_ok.1 hwrite
      obtain rfl := Admission.items_eq_ok hws
      split at hwrite
      · cases hwrite
      · rename_i hlength
        obtain ⟨jsons, hjsons, hwrite⟩ := bind_eq_ok.1 hwrite
        obtain rfl := pure_eq_ok.1 hwrite
        obtain ⟨hcount, hread⟩ := succeeds_decodePositions positions hkind.2.2
          (Decidable.not_not.1 hlength) hjsons below 0
        show Succeeds (if jsons.length ≠ positions.length then _
          else decodePositions below 0 positions jsons >>= fun vs => pure (Value.array vs)) ↔
          positionsReadable positions vs
        rw [if_neg (not_not.2 hcount), succeeds_bind_pure, hread]
    | _ => cases hwrite
  | object fields =>
    cases v with
    | null =>
      obtain rfl := Except.ok.inj hwrite
      exact iff_of_true (succeeds_ok _) trivial
    | object doc =>
      obtain ⟨members, hmembers, rfl⟩ := map_eq_ok.1 hwrite
      show Succeeds ((decodeMembers fields skipNone
        (fun members => decodeFields below fields members) members).map Value.object) ↔
        fieldsReadable fields doc
      rw [succeeds_map]
      exact succeeds_decodeMembers (fun inside hinside members =>
        (succeeds_decodeFields fields hkind.2 hkind.1 hinside).2 below members) hmembers
    | _ => cases hwrite
  | _ => exact succeeds_leaf rfl hwrite below
termination_by structural kind

/-- What was written for an element is read exactly if the element is readable. -/
theorem succeeds_decodeElement (element : Element) {indexed : Bool}
    (helement : element.Resolved indexed) {v : Value} {path : String} {json : Json}
    (hwrite : encodeElement path element v = .ok json) (below : String) :
    Succeeds (decodeElement below element json) ↔ elementReadable element v := by
  cases element with
  | scalar kind =>
    rw [encodeElement, encodeScalar_eq] at hwrite
    rw [decodeElement, decodeScalar_eq, succeeds_leaf (Default.isLeaf_ofScalar kind) hwrite below]
    cases kind <;> exact Iff.rfl
  | object fields =>
    cases v with
    | null =>
      obtain rfl := Except.ok.inj hwrite
      exact iff_of_false (not_succeeds_error _) id
    | object doc =>
      obtain ⟨members, hmembers, rfl⟩ := map_eq_ok.1 hwrite
      show Succeeds ((decodeMembers fields skipNone
        (fun members => decodeFields below fields members) members).map Value.object) ↔
        fieldsReadable fields doc
      rw [succeeds_map]
      exact succeeds_decodeMembers (fun inside hinside members =>
        (succeeds_decodeFields fields helement.2 helement.1 hinside).2 below members) hmembers
    | _ => cases hwrite
termination_by structural element

/-- What was written for the positions of a tuple is read exactly if each of them is readable. -/
theorem succeeds_decodePositions (positions : List Element) {indexed : Bool}
    (hpositions : positionsResolved indexed positions) {vs : List Value}
    (hlength : vs.length = positions.length) {path : String} {index : Nat} {jsons : List Json}
    (hwrite : encodePositions path index positions vs = .ok jsons) (below : String) (index' : Nat) :
    jsons.length = positions.length ∧
      (Succeeds (decodePositions below index' positions jsons) ↔ positionsReadable positions vs) := by
  cases positions with
  | nil =>
    obtain rfl := List.length_eq_zero_iff.1 hlength
    obtain rfl := Except.ok.inj hwrite
    exact ⟨rfl, iff_of_true (succeeds_ok _) trivial⟩
  | cons element elements =>
    cases vs with
    | nil => cases hlength
    | cons v vs =>
      obtain ⟨json, hjson, hwrite⟩ := bind_eq_ok.1 hwrite
      obtain ⟨rest, hrest, hwrite⟩ := bind_eq_ok.1 hwrite
      obtain rfl := pure_eq_ok.1 hwrite
      have hread := succeeds_decodeElement element hpositions.1 hjson (itemPath below index')
      obtain ⟨hcount, hreads⟩ := succeeds_decodePositions elements hpositions.2
        (Nat.succ.inj hlength) hrest below (index' + 1)
      refine ⟨congrArg Nat.succ hcount, ?_⟩
      rw [decodePositions, succeeds_both, hread, hreads, positionsReadable]
termination_by structural positions

/-- What was written for the fields of a level is read exactly if the fields are readable. -/
theorem succeeds_decodeFields (fields : List (String × Field)) {indexed : Bool}
    (hfields : fieldsResolved indexed fields) (hordered : Entries.Ordered fields) {doc : Document}
    {path : String} {inside : Entries Json} (hwrite : encodeFields path fields doc = .ok inside) :
    inside.keys.Sublist (Entries.keys fields) ∧ ∀ below members, Agree fields members inside →
      (Succeeds (decodeFields below fields members) ↔ fieldsReadable fields doc) := by
  cases fields with
  | nil =>
    obtain rfl := Except.ok.inj hwrite
    exact ⟨List.Sublist.refl _, fun _ _ _ => iff_of_true (succeeds_ok _) trivial⟩
  | cons first rest =>
    obtain ⟨name, kind, optional, sortable, isIndexed, default⟩ := first
    obtain ⟨_, ⟨_, _, hkind, _⟩, hrest⟩ := hfields
    rw [encodeFields] at hwrite
    rw [fieldsReadable]
    cases heffective : effective doc name default with
    | none =>
      rw [heffective] at hwrite
      obtain ⟨hkeys, hread⟩ := succeeds_decodeFields rest hrest hordered.tail hwrite
      refine ⟨hkeys.cons name, ?_⟩
      intro below members hagree
      obtain ⟨habsent, hagree⟩ := hagree.absent hordered hkeys
      have hnull : Succeeds (pure Value.null : Except DecodeError Value) := succeeds_ok _
      rw [decodeFields, habsent]
      dsimp only
      rw [succeeds_both, hread below members hagree]
      exact and_congr_left' (iff_of_true hnull trivial)
    | some v =>
      rw [heffective] at hwrite
      obtain ⟨json, hjson, hwrite⟩ := bind_eq_ok.1 hwrite
      obtain ⟨jsons, hjsons, hwrite⟩ := bind_eq_ok.1 hwrite
      obtain rfl := pure_eq_ok.1 hwrite
      obtain ⟨hkeys, hread⟩ := succeeds_decodeFields rest hrest hordered.tail hjsons
      refine ⟨hkeys.cons_cons name, ?_⟩
      intro below members hagree
      obtain ⟨hpresent, hagree⟩ := hagree.present hordered
      rw [decodeFields, hpresent]
      dsimp only
      rw [succeeds_both, succeeds_decodeKind kind hkind hjson, hread below members hagree]
termination_by structural fields

end

end DocumentSchema.Tree

namespace DocumentSchema

/-- A document that was written as a tree by a canonical schema can be read from the tree exactly if
no null stands in it where reading refuses one, and no date lies in a leap second at the end of
time. -/
theorem Schema.decodeTree_succeeds_iff {schema : Schema} (hschema : schema.IsCanonical)
    {doc : Document} {json : Json} (hwrite : schema.encodeTree doc = .ok json) :
    (∃ result, schema.decodeTree json = .ok result) ↔ Tree.fieldsReadable schema.fields doc := by
  have hsound := hschema.sound
  obtain ⟨members, hmembers, rfl⟩ := Outcome.map_eq_ok.1 hwrite
  exact Tree.succeeds_decodeMembers (fun inside hinside members =>
    (Tree.succeeds_decodeFields schema.fields hsound.resolved hsound.ordered hinside).2 "" members)
    hmembers

/-! ## A journal -/

/-- A date, an array of texts with a null in its default, and a tuple with an object in it. -/
def journalDeclarations : Declarations :=
  [("born", .shorthand "date"),
    ("marks", .full { kind := "array", default := some (.array [.null]) } (some (.kind "string"))
      none none),
    ("stamp", .full { kind := "tuple" }
      (some (.positions [.kind "boolean", .fields [("label", .shorthand "string")]])) none none)]

/-- The schema that a journal is declared with. -/
def journalSchema : Schema where
  fields := [
    ("born", .ofKind .date),
    ("marks", .mk (.array (.scalar .string) ',') false false true (some (.array [.null]))),
    ("stamp", .ofKind (.tuple [.scalar .boolean,
      .object [("label", .ofKind (.string ',' false))]]))]
  references := []
  relations := []
  warnings := []

/-- A journal with a null at a place for a truth value and a number among texts. -/
def journal : Document :=
  [("born", .string "1970-01-01T00:00:01Z"), ("marks", .array [.number (Floating.ofInt .binary64 7)]),
    ("stamp", .array [.null, .object []])]

/-- The schema of journals comes from its declarations. -/
theorem journalSchema_isCanonical : journalSchema.IsCanonical := by
  refine ⟨journalDeclarations, ⟨by decide, ?_⟩, rfl⟩
  simp +decide [journalDeclarations, declarationsSatisfy, Declaration.Satisfies,
    declarationsSatisfy?, elementsSatisfy?, Elements.Satisfy, positionsSatisfy, Position.Satisfies,
    Attributes.WellFormed, Json.WellFormed, itemsWellFormed]

/-- A journal without a null at the place of an object is written and read again. -/
theorem Schema.decodeTree_succeeds_iff_journal :
    journalSchema.IsCanonical ∧ ∃ json, journalSchema.encodeTree journal = .ok json ∧
      ∃ result, journalSchema.decodeTree json = .ok result := by
  have hreadable : Tree.fieldsReadable journalSchema.fields journal := by
    refine ⟨?_, ?_, ?_, trivial⟩
    · intro t ht
      obtain ⟨_, hmax⟩ := Instant.seconds_of_read? ht
      exact Or.inl hmax
    · intro w hw
      obtain rfl := List.mem_singleton.1 hw
      exact ⟨by decide, trivial⟩
    · exact ⟨trivial, ⟨trivial, trivial⟩, trivial⟩
  exact ⟨journalSchema_isCanonical, _, rfl,
    (Schema.decodeTree_succeeds_iff journalSchema_isCanonical rfl).2 hreadable⟩

/-- A journal with a null for the object of its stamp is written, but cannot be read again; nor can
one with no number among its marks, nor one that leaves its marks to their default. -/
theorem Schema.decodeTree_refuses_journal :
    journalSchema.IsCanonical ∧
      journalSchema.encodeTree [("marks", .array []), ("stamp", .array [.bool true, .null])] =
        .ok (.object [("marks", .array []), ("stamp", .array [.bool true, .null])]) ∧
      journalSchema.decodeTree (.object [("marks", .array []),
        ("stamp", .array [.bool true, .null])]) =
          .error (.typeMismatch "stamp.1" (.kind .object) "null") ∧
      journalSchema.encodeTree [("marks", .array [.number (.nan false)])] =
        .ok (.object [("marks", .array [.null])]) ∧
      journalSchema.encodeTree [] = .ok (.object [("marks", .array [.null])]) ∧
      journalSchema.decodeTree (.object [("marks", .array [.null])]) =
        .error (.nullInArray "marks" 0) :=
  ⟨journalSchema_isCanonical, rfl, rfl, rfl, rfl, rfl⟩

end DocumentSchema
