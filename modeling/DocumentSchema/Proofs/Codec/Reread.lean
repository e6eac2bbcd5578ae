import DocumentSchema.Proofs.Codec.Keys
import DocumentSchema.Proofs.Codec.Readable
import DocumentSchema.Proofs.Declaration.WellFormed

/-!
# Documents that were read from trees

Reading accepts more trees than writing gives: a text may stand as a number, milliseconds may have
a fraction, an object may leave out fields and have members that no field describes. The documents
that it gives are all of one form. Their values are of the types of the fields, and they are
complete: every field is there at every depth, no item of an array is null, and a tuple has its
length. A complete document has nothing to fill in (`fillKind_eq`), so if it can be written at all,
it is read back as it is (`Schema.decodeTree_stable`).
-/

set_option autoImplicit false

namespace DocumentSchema.Tree

open Outcome

mutual

/-- A value of a field of a kind in which nothing is missing at any depth. -/
def kindComplete : Kind → Value → Prop
  | .array element _, v =>
    v = .null ∨ ∃ vs, v = .array vs ∧ ∀ w ∈ vs, w ≠ .null ∧ elementComplete element w
  | .tuple positions, v =>
    v = .null ∨
      ∃ vs, v = .array vs ∧ vs.length = positions.length ∧ positionsComplete positions vs
  | .object fields, v => v = .null ∨ ∃ doc, v = .object doc ∧ fieldsComplete fields doc
  | _, _ => True
termination_by structural kind => kind

/-- An element in which nothing is missing; an object is there. -/
def elementComplete : Element → Value → Prop
  | .scalar _, _ => True
  | .object fields, v => ∃ doc, v = .object doc ∧ fieldsComplete fields doc
termination_by structural element => element

/-- Values at the positions of a tuple in which nothing is missing. -/
def positionsComplete : List Element → List Value → Prop
  | element :: elements, v :: vs => elementComplete element v ∧ positionsComplete elements vs
  | _, _ => True
termination_by structural elements => elements

/-- A document that has every field, with nothing missing in any. -/
def fieldsComplete : List (String × Field) → Document → Prop
  | [], _ => True
  | (name, .mk kind _ _ _ _) :: rest, doc =>
    (∃ v, doc.get? name = some v ∧ kindComplete kind v) ∧ fieldsComplete rest doc
termination_by structural fields => fields

end

/-! ## Leaves -/

/-- Only null is null. -/
theorem eq_null_of_isNull {json : Json} (h : json.isNull = true) : json = .null := by
  cases json <;> first | rfl | cases h

/-- What is read as a text is one. -/
theorem decodesTo_of_decodeText {path : String} {json : Json} {v : Value}
    (hread : decodeText path json = .ok v) : ∃ s, v = .string s := by
  cases json with
  | string s => exact ⟨s, (Except.ok.inj hread).symm⟩
  | number n => exact ⟨n.text, (Except.ok.inj hread).symm⟩
  | bool b => exact ⟨Value.boolText b, (Except.ok.inj hread).symm⟩
  | _ => cases hread

/-- What is read as a number is one. -/
theorem decodesTo_of_decodeNumber {path : String} {json : Json} {v : Value}
    (hread : decodeNumber path json = .ok v) : ∃ x, v = .number x := by
  unfold decodeNumber at hread
  split at hread
  · rename_i x _
    exact ⟨x, (Except.ok.inj hread).symm⟩
  · cases hread

/-- A date that was read is one of whole milliseconds outside leap seconds. -/
theorem decodesTo_of_decodeDate {path : String} {json : Json} {v : Value}
    (hread : decodeDate path json = .ok v) : Kind.date.DecodesTo v := by
  unfold decodeDate at hread
  split at hread
  · rename_i t ht
    obtain ⟨millis, _, ht⟩ := Option.bind_eq_some_iff.1 ht
    obtain ⟨x, _, ht⟩ := Option.bind_eq_some_iff.1 ht
    have hwhole := Instant.whole_of_ofMillis? ht
    exact ⟨t, (Except.ok.inj hread).symm, hwhole⟩
  · cases hread

/-- Only arrays without nulls are taken for lists of items. -/
theorem nonNullItems_eq_ok {path : String} {expected : KindName} {json : Json} {items : List Json}
    (h : nonNullItems path expected json = .ok items) :
    json = .array items ∧ ∀ item ∈ items, item.isNull = false := by
  cases json with
  | array jsons =>
    rw [nonNullItems] at h
    split at h
    · cases h
    · rename_i hnone
      have heq := Except.ok.inj h
      subst heq
      exact ⟨rfl, List.findIdx?_eq_none_iff.1 hnone⟩
  | _ => cases h

/-- What holds of everything that is read holds of all items of a list that was read. -/
theorem forall_of_mapM {read : Json → Except DecodeError Value} {p : Value → Prop}
    (h : ∀ json v, read json = .ok v → p v) {jsons : List Json} {vs : List Value}
    (hread : jsons.mapM read = .ok vs) : ∀ v ∈ vs, p v := by
  induction jsons generalizing vs with
  | nil =>
    obtain rfl := pure_eq_ok.1 hread
    simp
  | cons json jsons ih =>
    rw [List.mapM_cons] at hread
    obtain ⟨v, hv, hread⟩ := bind_eq_ok.1 hread
    obtain ⟨rest, hrest, hread⟩ := bind_eq_ok.1 hread
    obtain rfl := pure_eq_ok.1 hread
    exact List.forall_mem_cons.2 ⟨h json v hv, ih hrest⟩

/-- What is read where a tree has something is of the type of the kind. -/
theorem decodesTo_of_decodeKind {kind : Kind} (hleaf : kind.isLeaf = true) {path : String}
    {json : Json} (hnull : json.isNull = false) {v : Value}
    (hread : decodeKind path kind json = .ok v) : kind.DecodesTo v := by
  rw [decodeKind.eq_def] at hread
  dsimp only at hread
  rw [hnull, if_neg Bool.false_ne_true] at hread
  cases kind with
  | string separator caseSensitive => exact decodesTo_of_decodeText hread
  | text weight phonetic => exact decodesTo_of_decodeText hread
  | number literals => exact decodesTo_of_decodeNumber hread
  | bigInt literals =>
    dsimp only [decodeBigInt] at hread
    split at hread
    · exact ⟨_, (Except.ok.inj hread).symm⟩
    · cases hread
  | boolean =>
    dsimp only [decodeBoolean] at hread
    split at hread
    · exact ⟨_, (Except.ok.inj hread).symm⟩
    · cases hread
  | date => exact decodesTo_of_decodeDate hread
  | point =>
    dsimp only [decodePoint] at hread
    split at hread
    · exact ⟨_, (Except.ok.inj hread).symm⟩
    · cases hread
  | vector options =>
    obtain ⟨items, _, hread⟩ := bind_eq_ok.1 hread
    obtain ⟨vs, hvs, hread⟩ := bind_eq_ok.1 hread
    have hnumbers := forall_of_mapM (fun _ _ => decodesTo_of_decodeNumber) hvs
    exact ⟨vs, (pure_eq_ok.1 hread).symm, hnumbers⟩
  | array element separator => cases hleaf
  | tuple positions => cases hleaf
  | object fields => cases hleaf

/-- No kind of field takes null for one of its values. -/
theorem ne_null_of_decodesTo {kind : Kind} {v : Value} (h : kind.DecodesTo v) : v ≠ .null := by
  intro hv
  subst hv
  cases kind <;> simp [Kind.DecodesTo] at h

/-- A null conforms to every kind of field. -/
theorem kindConforms_null (kind : Kind) : kindConforms kind .null := by
  cases kind <;> exact Or.inl rfl

/-- Nothing is missing in a null. -/
theorem kindComplete_null (kind : Kind) : kindComplete kind .null := by
  cases kind <;> first | exact Or.inl rfl | trivial

/-- What is read for a leaf field is null or a value of its kind. -/
theorem conforms_leaf {kind : Kind} (hleaf : kind.isLeaf = true) {path : String} {json : Json}
    {v : Value} (hread : decodeKind path kind json = .ok v) : v = .null ∨ kind.DecodesTo v := by
  cases hnull : json.isNull with
  | true =>
    rw [eq_null_of_isNull hnull, decodeKind_null] at hread
    exact Or.inl (Except.ok.inj hread).symm
  | false => exact Or.inr (decodesTo_of_decodeKind hleaf hnull hread)

/-! ## Items and levels -/

/-- An element is read as a null only where the tree has one. -/
theorem ne_null_of_decodeElement {path : String} {element : Element} {json : Json}
    (hnull : json.isNull = false) {v : Value} (hread : decodeElement path element json = .ok v) :
    v ≠ .null := by
  cases element with
  | scalar kind =>
    rw [decodeElement, decodeScalar_eq] at hread
    exact ne_null_of_decodesTo (decodesTo_of_decodeKind (Default.isLeaf_ofScalar kind) hnull hread)
  | object fields =>
    cases json with
    | object members =>
      obtain ⟨doc, _, rfl⟩ := map_eq_ok.1 hread
      simp
    | _ => cases hread

/-- What holds of every item that is read holds of all items of an array. -/
theorem forall_of_decodeItems {read : String → Json → Except DecodeError Value} {p : Value → Prop}
    {jsons : List Json} (h : ∀ json ∈ jsons, ∀ path v, read path json = .ok v → p v)
    {path : String} {index : Nat} {vs : List Value}
    (hread : decodeItems path read index jsons = .ok vs) : ∀ v ∈ vs, p v := by
  induction jsons generalizing index vs with
  | nil =>
    obtain rfl := Except.ok.inj hread
    simp
  | cons json jsons ih =>
    obtain ⟨hjson, hjsons⟩ := List.forall_mem_cons.1 h
    obtain ⟨v, hv, hread⟩ := bind_eq_ok.1 hread
    obtain ⟨rest, hrest, hread⟩ := bind_eq_ok.1 hread
    obtain rfl := pure_eq_ok.1 hread
    exact List.forall_mem_cons.2 ⟨hjson _ v hv, ih hjsons hrest⟩

/-- Nothing is left out of entries none of which is skipped. -/
theorem filter_unskipped {skip : String → Bool} {entries : Document}
    (h : ∀ e ∈ entries, skip e.1 = false) : (entries.filter fun e => !skip e.1) = entries := by
  refine List.filter_eq_self.2 ?_
  intro e he
  simp [h e he]

/-- A level that was read is put together from all fields and from plain values at names that are
not skipped. -/
theorem level_decodeMembers {fields : Entries Field} (hfields : fields.Ordered)
    {members : Entries Json} (hmembers : members.Ordered) {skip : String → Bool} {path : String}
    {doc : Document}
    (hread : decodeMembers fields skip (fun members => decodeFields path fields members) members =
      .ok doc) :
    ∃ inside outside, decodeFields path fields members = .ok inside ∧
      Level fields inside outside ∧ Value.membersPlain outside ∧
      (∀ e ∈ outside, skip e.1 = false) ∧ doc = Entries.insertAll inside outside := by
  obtain ⟨inside, hinside, hread⟩ := bind_eq_ok.1 hread
  obtain rfl := pure_eq_ok.1 hread
  have hothers := (ordered_undescribed hmembers fields).filter fun e => !skip e.1
  refine ⟨inside, _, hinside, ?_, Value.membersPlain_membersOfJson _, ?_, rfl⟩
  · rw [Value.membersOfJson_eq]
    refine ⟨hfields, keys_decodeFields hinside ▸ List.Sublist.refl _, hothers.mapValues _, ?_⟩
    intro e he
    obtain ⟨d, hd, rfl⟩ := List.mem_map.1 he
    exact (mem_undescribed.1 (List.mem_of_mem_filter hd)).2
  · intro e he
    rw [Value.membersOfJson_eq] at he
    obtain ⟨d, hd, rfl⟩ := List.mem_map.1 he
    simpa using (List.mem_filter.1 hd).2

/-- An object that was read has all fields, and plain values at other names. -/
theorem exists_of_decodeObject {fields : Entries Field} (hfields : fields.Ordered) {path : String}
    (h : ∀ members, membersWellFormed members → ∀ inside,
      decodeFields path fields members = .ok inside →
        ∀ doc, Agree fields doc inside → fieldsConform fields doc ∧ fieldsComplete fields doc)
    {json : Json} (hjson : json.WellFormed) {v : Value}
    (hread : decodeObject path fields (fun members => decodeFields path fields members) json =
      .ok v) :
    ∃ doc, v = .object doc ∧ Entries.Ordered doc ∧ Value.membersPlain (undescribed fields doc) ∧
      fieldsConform fields doc ∧ fieldsComplete fields doc := by
  cases json with
  | object members =>
    obtain ⟨hordered, hmembers⟩ := hjson
    obtain ⟨doc, hdoc, rfl⟩ := map_eq_ok.1 hread
    obtain ⟨inside, outside, hinside, hlevel, hplain, _, rfl⟩ :=
      level_decodeMembers hfields hordered hdoc
    have hvalues := h members hmembers inside hinside _ hlevel.agree
    rw [← hlevel.undescribed_eq] at hplain
    exact ⟨_, rfl, hlevel.ordered, hplain, hvalues⟩
  | _ => cases hread

/-! ## Every depth -/

mutual

/-- What is read for a field of a kind conforms to it, and nothing is missing in it. -/
theorem complete_decodeKind (kind : Kind) {indexed : Bool} (hkind : kind.Resolved indexed)
    {json : Json} (hjson : json.WellFormed) {path : String} {v : Value}
    (hread : decodeKind path kind json = .ok v) : kindConforms kind v ∧ kindComplete kind v := by
  cases hnull : json.isNull with
  | true =>
    rw [eq_null_of_isNull hnull, decodeKind_null] at hread
    rw [← Except.ok.inj hread]
    exact ⟨kindConforms_null kind, kindComplete_null kind⟩
  | false =>
    cases kind with
    | array element separator =>
      rw [decodeKind, hnull, if_neg Bool.false_ne_true] at hread
      obtain ⟨items, hitems, hread⟩ := bind_eq_ok.1 hread
      obtain ⟨vs, hvs, hread⟩ := bind_eq_ok.1 hread
      obtain rfl := pure_eq_ok.1 hread
      -- an array with a null in it was refused before its items were read
      obtain ⟨rfl, hnulls⟩ := nonNullItems_eq_ok hitems
      have hitem : ∀ w ∈ vs, w ≠ .null ∧ elementConforms element w ∧ elementComplete element w := by
        refine forall_of_decodeItems ?_ hvs
        intro item hitem path w hw
        have hne := ne_null_of_decodeElement (hnulls item hitem) hw
        have hwell := itemsWellFormed_of_mem hjson.2 item hitem
        exact ⟨hne, complete_decodeElement element hkind.2 hwell hw⟩
      refine ⟨Or.inr ⟨vs, rfl, ?_⟩, Or.inr ⟨vs, rfl, ?_⟩⟩
      · exact fun w hw => ⟨(hitem w hw).1, (hitem w hw).2.1⟩
      · exact fun w hw => ⟨(hitem w hw).1, (hitem w hw).2.2⟩
    | tuple positions =>
      cases json with
      | null => cases hnull
      | array items =>
        rw [decodeKind, hnull, if_neg Bool.false_ne_true] at hread
        split at hread
        · cases hread
        · rename_i hlength
          obtain ⟨vs, hvs, hread⟩ := bind_eq_ok.1 hread
          obtain rfl := pure_eq_ok.1 hread
          obtain ⟨hcount, hconforms, hcomplete⟩ := complete_decodePositions positions hkind.2.2
            hjson.2 (Decidable.not_not.1 hlength) hvs
          exact ⟨Or.inr ⟨vs, rfl, hconforms⟩, Or.inr ⟨vs, rfl, hcount, hcomplete⟩⟩
      | _ => cases hread
    | object fields =>
      rw [decodeKind, hnull, if_neg Bool.false_ne_true] at hread
      obtain ⟨doc, rfl, hdoc, hplain, hconforms, hcomplete⟩ := exists_of_decodeObject hkind.1
        (fun members hmembers inside => complete_decodeFields fields hkind.2 hkind.1 hmembers)
        hjson hread
      exact ⟨Or.inr ⟨doc, rfl, hdoc, hplain, hconforms⟩, Or.inr ⟨doc, rfl, hcomplete⟩⟩
    | _ => exact ⟨conforms_leaf rfl hread, trivial⟩
termination_by structural kind

/-- What is read for an element conforms to it, and nothing is missing in it. -/
theorem complete_decodeElement (element : Element) {indexed : Bool}
    (helement : element.Resolved indexed) {json : Json} (hjson : json.WellFormed) {path : String}
    {v : Value} (hread : decodeElement path element json = .ok v) :
    elementConforms element v ∧ elementComplete element v := by
  cases element with
  | scalar kind =>
    rw [decodeElement, decodeScalar_eq] at hread
    exact ⟨conforms_leaf (Default.isLeaf_ofScalar kind) hread, trivial⟩
  | object fields =>
    obtain ⟨doc, rfl, hdoc, hplain, hconforms, hcomplete⟩ := exists_of_decodeObject helement.1
      (fun members hmembers inside => complete_decodeFields fields helement.2 helement.1 hmembers)
      hjson hread
    exact ⟨⟨doc, rfl, hdoc, hplain, hconforms⟩, ⟨doc, rfl, hcomplete⟩⟩
termination_by structural element

/-- As many values are read as a tuple has positions, each of them for its position. -/
theorem complete_decodePositions (positions : List Element) {indexed : Bool}
    (hpositions : positionsResolved indexed positions) {jsons : List Json}
    (hjsons : itemsWellFormed jsons) (hlength : jsons.length = positions.length) {path : String}
    {index : Nat} {vs : List Value}
    (hread : decodePositions path index positions jsons = .ok vs) :
    vs.length = positions.length ∧ positionsConform positions vs ∧
      positionsComplete positions vs := by
  cases positions with
  | nil =>
    obtain rfl := Except.ok.inj hread
    exact ⟨rfl, trivial, trivial⟩
  | cons element elements =>
    cases jsons with
    | nil => cases hlength
    | cons json jsons =>
      obtain ⟨v, hv, hread⟩ := bind_eq_ok.1 hread
      obtain ⟨rest, hrest, hread⟩ := bind_eq_ok.1 hread
      obtain rfl := pure_eq_ok.1 hread
      have hfirst := complete_decodeElement element hpositions.1 hjsons.1 hv
      have hothers := complete_decodePositions elements hpositions.2 hjsons.2
        (Nat.succ.inj hlength) hrest
      exact ⟨congrArg Nat.succ hothers.1, ⟨hfirst.1, hothers.2.1⟩, ⟨hfirst.2, hothers.2.2⟩⟩
termination_by structural positions

/-- A document with the values that are read for the fields conforms to them, and nothing is missing
in it. -/
theorem complete_decodeFields (fields : List (String × Field)) {indexed : Bool}
    (hfields : fieldsResolved indexed fields) (hordered : Entries.Ordered fields)
    {members : Entries Json} (hmembers : membersWellFormed members) {path : String}
    {inside : Document} (hread : decodeFields path fields members = .ok inside) (doc : Document)
    (hagree : Agree fields doc inside) : fieldsConform fields doc ∧ fieldsComplete fields doc := by
  cases fields with
  | nil => exact ⟨trivial, trivial⟩
  | cons first rest =>
    obtain ⟨name, kind, optional, sortable, isIndexed, default⟩ := first
    obtain ⟨_, ⟨_, _, hkind, _⟩, hrest⟩ := hfields
    obtain ⟨v, others, hcases, hothers, rfl⟩ := decodeFields_cons hread
    obtain ⟨hget, hagree⟩ := hagree.present hordered
    have hlater := complete_decodeFields rest hrest hordered.tail hmembers hothers doc hagree
    have hjson : ∃ json path, json.WellFormed ∧ decodeKind path kind json = .ok v := by
      rcases hcases with ⟨_, rfl⟩ | ⟨json, hjson, hv⟩
      · exact ⟨.null, path, trivial, decodeKind_null path kind⟩
      · exact ⟨json, _, membersWellFormed_get? hmembers hjson, hv⟩
    obtain ⟨json, _, hjson, hv⟩ := hjson
    have hvalue := complete_decodeKind kind hkind hjson hv
    rw [fieldsConform, hget]
    exact ⟨⟨hvalue.1, hlater.1⟩, ⟨⟨v, hget, hvalue.2⟩, hlater.2⟩⟩
termination_by structural fields

end

mutual

/-- There is nothing to fill in where nothing is missing. -/
theorem fillKind_eq (kind : Kind) {indexed : Bool} (hkind : kind.Resolved indexed) {v : Value}
    (hv : kindConforms kind v) (hcomplete : kindComplete kind v) : fillKind kind v = v := by
  cases kind with
  | array element separator =>
    rcases hv with rfl | ⟨vs, rfl, hconforms⟩
    · rfl
    · rcases hcomplete with hnull | ⟨ws, heq, hitems⟩
      · cases hnull
      · obtain rfl := Value.array.inj heq
        have hfill : ∀ w ∈ vs, fillElement element w = w := by
          intro w hw
          exact fillElement_eq element hkind.2 (hconforms w hw).2 (hitems w hw).2
        rw [fillKind, List.map_congr_left hfill, List.map_id']
  | tuple positions =>
    rcases hv with rfl | ⟨vs, rfl, hconforms⟩
    · rfl
    · rcases hcomplete with hnull | ⟨ws, heq, _, hpositions⟩
      · cases hnull
      · obtain rfl := Value.array.inj heq
        exact congrArg Value.array
          (fillPositions_eq positions hkind.2.2 hconforms hpositions)
  | object fields =>
    rcases hv with rfl | ⟨doc, rfl, hdoc, _, hconforms⟩
    · rfl
    · rcases hcomplete with hnull | ⟨other, heq, hfields⟩
      · cases hnull
      · obtain rfl := Value.object.inj heq
        rw [fillKind, fillFields_eq fields hkind.2 hconforms hfields,
          insertAll_described hkind.1 hdoc]
  | _ => rfl
termination_by structural kind

/-- Filling changes no element in which nothing is missing. -/
theorem fillElement_eq (element : Element) {indexed : Bool} (helement : element.Resolved indexed)
    {v : Value} (hv : elementConforms element v) (hcomplete : elementComplete element v) :
    fillElement element v = v := by
  cases element with
  | scalar kind => rfl
  | object fields =>
    obtain ⟨doc, rfl, hdoc, _, hconforms⟩ := hv
    obtain ⟨other, heq, hfields⟩ := hcomplete
    obtain rfl := Value.object.inj heq
    rw [fillElement, fillFields_eq fields helement.2 hconforms hfields,
      insertAll_described helement.1 hdoc]
termination_by structural element

/-- Filling changes no position of a tuple in which nothing is missing. -/
theorem fillPositions_eq (positions : List Element) {indexed : Bool}
    (hpositions : positionsResolved indexed positions) {vs : List Value}
    (hvs : positionsConform positions vs) (hcomplete : positionsComplete positions vs) :
    fillPositions positions vs = vs := by
  cases positions with
  | nil => cases vs <;> rfl
  | cons element elements =>
    cases vs with
    | nil => rfl
    | cons v vs =>
      rw [fillPositions, fillElement_eq element hpositions.1 hvs.1 hcomplete.1,
        fillPositions_eq elements hpositions.2 hvs.2 hcomplete.2]
termination_by structural positions

/-- Filling only drops what no field describes where nothing is missing. -/
theorem fillFields_eq (fields : List (String × Field)) {indexed : Bool}
    (hfields : fieldsResolved indexed fields) {doc : Document} (hdoc : fieldsConform fields doc)
    (hcomplete : fieldsComplete fields doc) : fillFields fields doc = described fields doc := by
  cases fields with
  | nil => rfl
  | cons first rest =>
    obtain ⟨name, kind, optional, sortable, isIndexed, default⟩ := first
    obtain ⟨_, ⟨_, _, hkind, _⟩, hrest⟩ := hfields
    obtain ⟨⟨v, hget, hvalue⟩, hlater⟩ := hcomplete
    rw [fieldsConform, hget] at hdoc
    rw [fillFields, hget, described, List.filterMap_cons, hget]
    dsimp only [Option.map_some]
    rw [fillKind_eq kind hkind hdoc.1 hvalue, fillFields_eq rest hrest hdoc.2 hlater]
    rfl
termination_by structural fields

end

/-- A complete document that can be written is read back as it is, from a tree that has nothing at
the names that are skipped, and it equals itself. -/
theorem decodeMembers_of_complete {fields : Entries Field} {indexed : Bool}
    (hfields : fieldsResolved indexed fields) (hordered : fields.Ordered) {doc : Document}
    (hdoc : Entries.Ordered doc) (hconforms : fieldsConform fields doc)
    (hcomplete : fieldsComplete fields doc) (hplain : Value.membersPlain (undescribed fields doc))
    {skip : String → Bool} (hskip : ∀ e ∈ undescribed fields doc, skip e.1 = false)
    {members : Entries Json}
    (hwrite : encodeMembers fields skip (encodeFields "" fields) doc = .ok members) :
    decodeMembers fields skip (decodeFields "" fields) members = .ok doc ∧
      Value.sameMembers doc doc = true := by
  have hothers := filter_unskipped hskip
  have hfill : Entries.insertAll (fillFields fields doc) (undescribed fields doc) = doc := by
    rw [fillFields_eq fields hfields hconforms hcomplete, insertAll_described hordered hdoc]
  have hinside := fun inside (hinside : encodeFields "" fields doc = .ok inside) =>
    decodeFields_encodeFields fields hfields hordered hconforms hinside
  constructor
  · have hread := decodeMembers_encodeMembers hordered hdoc (by rw [hothers]; exact hplain)
      (fun inside h => ⟨(hinside inside h).1, (hinside inside h).2.2 ""⟩) hwrite
    rw [hothers, hfill] at hread
    exact hread
  · obtain ⟨inside, hfirst, _⟩ := bind_eq_ok.1 hwrite
    have hsame := same_level hordered (hinside inside hfirst).2.1
      (ordered_undescribed hdoc fields) hplain
    rw [hfill] at hsame
    exact hsame

end DocumentSchema.Tree

namespace DocumentSchema

/-- Whatever tree a document was read from by a canonical schema, its values are of the types of the
fields and nothing is missing in it; and if it can be written as a tree, it is read back from that
tree as it is. -/
theorem Schema.decodeTree_stable {schema : Schema} (hschema : schema.IsCanonical) {json : Json}
    (hjson : json.WellFormed) {doc : Document} (hread : schema.decodeTree json = .ok doc) :
    Tree.Conforms schema doc ∧ Tree.fieldsComplete schema.fields doc ∧
      ∀ again, schema.encodeTree doc = .ok again →
        schema.decodeTree again = .ok doc ∧ Value.sameMembers doc doc = true := by
  have hsound := hschema.sound
  cases json with
  | object members =>
    obtain ⟨hmembers, hvalues⟩ := hjson
    obtain ⟨inside, outside, hinside, hlevel, hplain, hlinks, rfl⟩ :=
      Tree.level_decodeMembers hsound.ordered hmembers hread
    obtain ⟨hconforms, hcomplete⟩ := Tree.complete_decodeFields schema.fields hsound.resolved
      hsound.ordered hvalues hinside _ hlevel.agree
    have hothers := Tree.filter_unskipped hlinks
    rw [← hlevel.undescribed_eq] at hplain hlinks
    refine ⟨⟨hlevel.ordered, hconforms, ?_⟩, hcomplete, ?_⟩
    · rw [hlevel.undescribed_eq] at hplain ⊢
      rw [hothers]
      exact hplain
    · intro again hwrite
      obtain ⟨written, hwritten, rfl⟩ := Outcome.map_eq_ok.1 hwrite
      exact Tree.decodeMembers_of_complete hsound.resolved hsound.ordered hlevel.ordered hconforms
        hcomplete hplain hlinks hwritten
  | _ => cases hread

/-! ## A visit -/

/-- A date, a tuple with an object in it, a reference, and an object. -/
def visitDeclarations : Declarations :=
  [("at", .shorthand "date"),
    ("marks", .full { kind := "tuple" }
      (some (.positions [.kind "boolean", .fields [("label", .shorthand "string")]])) none none),
    ("owner", .full { kind := "reference", target := some "Person" } none none none),
    ("place", .full { kind := "object" } none
      (some [("city", .shorthand "string"), ("floor", .shorthand "bigint")]) none)]

/-- The schema that a visit is declared with. -/
def visitSchema : Schema where
  fields := [
    ("at", .ofKind .date),
    ("marks", .ofKind (.tuple [.scalar .boolean,
      .object [("label", .ofKind (.string ',' false))]])),
    ("place", .ofKind (.object [("city", .ofKind (.string ',' false)),
      ("floor", .ofKind (.bigInt none))]))]
  references := [("owner", ⟨.named "Person", false⟩)]
  relations := []
  warnings := []

/-- A visit after one and a half milliseconds, with numbers for texts, an owner, a door that no
field describes, and no floor. -/
def visitTree : Json :=
  .object [("at", .number (.float ⟨false, 6755399441055744, -52, by decide⟩)),
    ("marks", .array [.null, .object [("label", .number (.integer 7 (by decide) (by decide)))]]),
    ("owner", .string "7"),
    ("place", .object [("city", .bool true),
      ("door", .number (.integer 3 (by decide) (by decide)))])]

/-- The visit that is read: every value is of the type of its field, and the floor is null. -/
def visit : Document :=
  [("at", .date ⟨0, 2000000, by decide⟩),
    ("marks", .array [.null, .object [("label", .string "7")]]),
    ("place", .object [("city", .string "true"), ("door", .number (Floating.ofInt .binary64 3)),
      ("floor", .null)])]

/-- The schema of visits comes from its declarations. -/
theorem visitSchema_isCanonical : visitSchema.IsCanonical := by
  refine ⟨visitDeclarations, ⟨by decide, ?_⟩, rfl⟩
  simp +decide [visitDeclarations, declarationsSatisfy, Declaration.Satisfies,
    declarationsSatisfy?, elementsSatisfy?, Elements.Satisfy, positionsSatisfy, Position.Satisfies,
    Attributes.WellFormed]

/-- A visit that was read with conversions is written and read again as it is. -/
theorem Schema.decodeTree_stable_visit :
    visitSchema.IsCanonical ∧ visitTree.WellFormed ∧ visitSchema.decodeTree visitTree = .ok visit ∧
      Tree.fieldsComplete visitSchema.fields visit ∧
      ∃ again, visitSchema.encodeTree visit = .ok again ∧
        visitSchema.decodeTree again = .ok visit := by
  have hwell : visitTree.WellFormed := by
    simp +decide [visitTree, Json.WellFormed, itemsWellFormed, membersWellFormed]
  have hread : visitSchema.decodeTree visitTree = .ok visit := rfl
  obtain ⟨_, hcomplete, hagain⟩ :=
    Schema.decodeTree_stable visitSchema_isCanonical hwell hread
  exact ⟨visitSchema_isCanonical, hwell, hread, hcomplete, _, rfl, (hagain _ rfl).1⟩

end DocumentSchema
