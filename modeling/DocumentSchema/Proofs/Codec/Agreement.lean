import DocumentSchema.Proofs.Codec.Hash
import DocumentSchema.Proofs.Codec.Reread
import DocumentSchema.Proofs.Codec.Seconds

/-!
# What both forms of a document say

A document that can be written in either form is read from both. The two readings agree wherever
the forms have a common notion of a value: numbers up to the sign of a zero, integers, truth values,
dates of the years 0 to 9999, points, vectors, and arrays of these. Only where a field has texts and
a document has a number for one do they part, because a hash has the text of a stored number and a
tree the number itself, whose text in a tree has a fraction or an exponent. `textAlike` says when the
two texts are one, which they never are for whole numbers below `10 ^ 15`
(`not_textAlike_of_integer`), and `Schema.readings_same_iff` that nothing else is needed.
-/

set_option autoImplicit false

namespace DocumentSchema

/-- A number for a text has one text in a hash and in a tree. -/
def textAlike : Value → Prop
  | .number x => ∃ y, x = .finite y ∧ Hash.numberText y = (Json.Number.float y).text
  | _ => True

/-- A value of a leaf field that both forms have alike. -/
def leafAlike : Kind → Value → Prop
  | .string _ _, v => textAlike v
  | .text _ _, v => textAlike v
  | _, _ => True

/-- A value of a leaf field that denotes no instant outside the years 0 to 9999, if the field has
dates. -/
def leafDated : Kind → Value → Prop
  | .date, v => ∀ t, v.toInstant? = some t → t.InFourDigitYears
  | _, _ => True

/-- A property of the value of a leaf field, or of every element of an array of scalars. -/
def eachScalar (p : Kind → Value → Prop) : Kind → Value → Prop
  | .array (.scalar kind) _, v => ∀ vs, v = .array vs → ∀ w ∈ vs, p (Kind.ofScalar kind) w
  | kind, v => p kind v

/-- A property of all scalars that the fields have in a document, defaults included. -/
def eachField (p : Kind → Value → Prop) (fields : Entries Field) (doc : Document) : Prop :=
  ∀ e ∈ fields, ∀ v, effective doc e.1 e.2.default = some v → eachScalar p e.2.kind v

namespace Agreement

open Outcome

/-- A value is read that equals another one. -/
def ReadsSame (read : Except DecodeError Value) (v : Value) : Prop :=
  ∃ w, read = .ok w ∧ v.same w = true

/-- A value that was read is read alike exactly if it equals the other one. -/
theorem readsSame_ok {v w : Value} : ReadsSame (.ok w) v ↔ v.same w = true := by
  constructor
  · rintro ⟨u, hu, hsame⟩
    rw [Except.ok.inj hu]
    exact hsame
  · intro hsame
    exact ⟨w, rfl, hsame⟩

/-- Only null equals null. -/
theorem ne_null_of_same {v w : Value} (hv : v.isNull = false) (h : v.same w = true) : w ≠ .null := by
  intro hw
  subst hw
  cases v <;> simp [Value.same, Value.isNull] at hv h

/-! ## Leaves -/

/-- What is admitted as an integer does not depend on where it stands. -/
theorem bigInt_path {path : String} {literals : Option (List Int128)} {v : Value} {i : Int128}
    (h : Admission.bigInt path literals v = .ok i) (other : String) :
    Admission.bigInt other literals v = .ok i := by
  unfold Admission.bigInt at h ⊢
  dsimp only at h ⊢
  split at h
  · cases h
  · split at h
    · rename_i hadmits
      rw [if_pos hadmits]
      exact h
    · cases h

/-- A text is read alike exactly if it is not a number with another text in a tree. -/
theorem readsSame_text {path text : String} {v : Value} (hhash : Hash.plainText path v = .ok text)
    {place : String} {json : Json} (htree : Tree.encodeText place v = .ok json) (below : String) :
    ReadsSame (if json.isNull then .ok .null else Tree.decodeText below json) (.string text) ↔
      textAlike v := by
  cases v with
  | string s =>
    obtain rfl := Except.ok.inj hhash
    obtain rfl := Except.ok.inj htree
    exact iff_of_true (readsSame_ok.2 (decide_eq_true rfl)) trivial
  | bool b =>
    obtain rfl := Except.ok.inj hhash
    obtain rfl := Except.ok.inj htree
    exact iff_of_true (readsSame_ok.2 (decide_eq_true rfl)) trivial
  | bigInt i =>
    obtain rfl := Except.ok.inj hhash
    obtain rfl := Except.ok.inj htree
    exact iff_of_true (readsSame_ok.2 (decide_eq_true rfl)) trivial
  | number x =>
    obtain rfl := Except.ok.inj hhash
    obtain rfl := Except.ok.inj htree
    cases x with
    | finite y =>
      refine (readsSame_ok (v := .string (Hash.numberText y))).trans ?_
      rw [Value.same, decide_eq_true_eq]
      simp [textAlike]
    | infinite negative =>
      have hread : ReadsSame (.ok .null) (.string (Floating.token (.infinite negative))) ↔
          False := by
        simp [readsSame_ok, Value.same]
      exact hread.trans (by simp [textAlike])
    | nan negative =>
      have hread : ReadsSame (.ok .null) (.string (Floating.token (.nan negative))) ↔ False := by
        simp [readsSame_ok, Value.same]
      exact hread.trans (by simp [textAlike])
  | _ => cases hhash

/-- What a hash and a tree have for a value of a leaf field: the text is read, and the tree alike
exactly if both forms have the value alike. -/
def BothRead (kind : Kind) (v : Value) (text : String) (json : Json) : Prop :=
  ∀ name, ∃ a, Hash.readKind name kind text = .ok a ∧ a.isNull = false ∧
    ∀ below, ReadsSame (Tree.decodeKind below kind json) a ↔ leafAlike kind v

/-- Two readings that are equal whatever the value agree where both forms have the value alike. -/
theorem readings_of_same {kind : Kind} {v : Value} {name text : String} {json : Json} {a b : Value}
    (hhash : Hash.readKind name kind text = .ok a)
    (htree : ∀ below, Tree.decodeKind below kind json = .ok b) (ha : a.isNull = false)
    (hsame : a.same b = true) (halike : leafAlike kind v) :
    ∃ a, Hash.readKind name kind text = .ok a ∧ a.isNull = false ∧
      ∀ below, ReadsSame (Tree.decodeKind below kind json) a ↔ leafAlike kind v := by
  refine ⟨a, hhash, ha, ?_⟩
  intro below
  rw [htree, readsSame_ok]
  exact iff_of_true hsame halike

section Kinds

variable {path place text : String} {v : Value} {json : Json}

/-- A number is read as an equal one from both forms. -/
theorem bothRead_number {literals : Option (List Binary64)}
    (hhash : (Admission.number path literals v).map Hash.numberText = .ok text)
    (htree : (Admission.number place literals v).map Tree.numberTree = .ok json) :
    BothRead (.number literals) v text json := by
  obtain ⟨x, hx, rfl⟩ := map_eq_ok.1 hhash
  obtain ⟨y, hy, rfl⟩ := map_eq_ok.1 htree
  obtain rfl := (Admission.number_iff.1 hx).1
  obtain rfl := Floating.finite.inj (Admission.number_eq_ok hy)
  intro name
  obtain ⟨z, hz, hunits, _⟩ := Hash.readNumber_numberText name x
  have hread : Hash.readKind name (.number literals) (Hash.numberText x) =
      .ok (.number (.finite z)) := by
    rw [Hash.readKind, hz]
    rfl
  have hsame : (Value.number (.finite z)).same (.number (.finite x)) = true :=
    decide_eq_true hunits
  exact readings_of_same hread (fun _ => rfl) rfl hsame trivial

/-- An integer is one text in both forms. -/
theorem bothRead_bigInt {literals : Option (List Int128)}
    (hhash : (Admission.bigInt path literals v).map Int128.text = .ok text)
    (htree : (Admission.bigInt place literals v).map (fun i => Json.string i.text) = .ok json) :
    BothRead (.bigInt literals) v text json := by
  obtain ⟨i, hi, rfl⟩ := map_eq_ok.1 hhash
  obtain ⟨j, hj, rfl⟩ := map_eq_ok.1 htree
  obtain rfl := Except.ok.inj ((bigInt_path hi place).symm.trans hj)
  intro name
  have hread : Hash.readKind name (.bigInt literals) i.text = .ok (.bigInt i) := by
    rw [Hash.readKind, Hash.readBigInt, Int128.read_text]
    rfl
  have hread' : ∀ below, Tree.decodeKind below (.bigInt literals) (.string i.text) =
      .ok (.bigInt i) := by
    intro below
    show Tree.decodeBigInt below (.string i.text) = _
    rw [Tree.decodeBigInt, Json.toInt128?, Int128.read_text]
  exact readings_of_same hread hread' rfl (decide_eq_true rfl) trivial

/-- A truth value is read from its text as well as from a tree. -/
theorem bothRead_boolean (hhash : (Admission.boolean path v).map Hash.boolText = .ok text)
    (htree : (Admission.boolean place v).map Json.bool = .ok json) :
    BothRead .boolean v text json := by
  obtain ⟨b, hb, rfl⟩ := map_eq_ok.1 hhash
  obtain ⟨c, hc, rfl⟩ := map_eq_ok.1 htree
  cases v with
  | bool d =>
    obtain rfl := Except.ok.inj hb
    obtain rfl := Except.ok.inj hc
    intro name
    have hread : Hash.readKind name .boolean (Hash.boolText d) = .ok (.bool d) := by
      cases d <;> rfl
    exact readings_of_same hread (fun _ => rfl) rfl (decide_eq_true rfl) trivial
  | _ => cases hb

/-- An instant is one number of milliseconds in both forms, from the years 0 to 9999. -/
theorem bothRead_date (hdated : leafDated .date v)
    (hhash : (Admission.date path v).map (fun t => Hash.secondsText t.millis) = .ok text)
    (htree : (Admission.date place v).map Json.ofInstant = .ok json) :
    BothRead .date v text json := by
  obtain ⟨t, ht, rfl⟩ := map_eq_ok.1 hhash
  obtain ⟨u, hu, rfl⟩ := map_eq_ok.1 htree
  have hinstant := Admission.date_iff.1 ht
  have hinstant' := Admission.date_iff.1 hu
  rw [hinstant] at hinstant'
  obtain rfl := Option.some.inj hinstant'
  obtain ⟨w, hseconds, hmillis⟩ := exists_readDate (hdated t hinstant)
  intro name
  have hread : Hash.readKind name .date (Hash.secondsText t.millis) = .ok (.date w) := by
    rw [Hash.readKind, hseconds]
    rfl
  exact readings_of_same hread hmillis rfl (decide_eq_true rfl) trivial

/-- A point is one text in both forms. -/
theorem bothRead_point (hhash : (Admission.point path v).map Coordinates.text = .ok text)
    (htree : (Admission.point place v).map (fun p => Json.string p.text) = .ok json) :
    BothRead .point v text json := by
  obtain ⟨p, hp, rfl⟩ := map_eq_ok.1 hhash
  obtain ⟨q, hq, rfl⟩ := map_eq_ok.1 htree
  obtain ⟨place, rfl⟩ := Admission.exists_of_point hp
  obtain ⟨rfl, hvalid⟩ := Admission.point_eq_ok hp
  obtain ⟨rfl, _⟩ := Admission.point_eq_ok hq
  intro name
  have hread : Hash.readKind name .point place.text = .ok (.point place) := by
    rw [Hash.readKind, Hash.readPoint, Coordinates.read?_text_of_isValid hvalid]
    rfl
  exact readings_of_same hread (Tree.decodePoint_text hvalid) rfl (Value.same_point hvalid) trivial

/-- The components of a vector are read as equal numbers from both forms. -/
theorem bothRead_vector {options : VectorOptions}
    (hhash : Hash.kindText path (.vector options) v = .ok text)
    (htree : (do
      let xs ← Admission.vector place options.dimension v
      return Json.array (xs.map Tree.numberTree)) = .ok json) :
    BothRead (.vector options) v text json := by
  obtain ⟨xs, hxs, hhash⟩ := bind_eq_ok.1 hhash
  obtain ⟨ys, hys, htree⟩ := bind_eq_ok.1 htree
  obtain rfl := pure_eq_ok.1 hhash
  obtain rfl := pure_eq_ok.1 htree
  obtain rfl := (Admission.vector_iff.1 hxs).1
  have hnumbers := Admission.vector_eq_ok hys
  intro name
  obtain ⟨a, hread, hsame⟩ := Hash.readKind_vector name options xs
  have hpresent : a.isNull = false := by
    cases a <;> first | rfl | cases hsame
  rw [hnumbers] at hsame
  exact readings_of_same hread (fun below => Tree.decodeKind_vector below options ys) hpresent
    hsame trivial

/-- What is written for a value of a leaf field is read from the hash, and alike from the tree
exactly if both forms have it alike. -/
theorem bothRead_leaf {kind : Kind} (hleaf : kind.isLeaf = true) (hnull : v.isNull = false)
    (hdated : leafDated kind v) (hhash : Hash.kindText path kind v = .ok text)
    (htree : Tree.encodeKind place kind v = .ok json) : BothRead kind v text json := by
  rw [Tree.encodeKind.eq_def] at htree
  dsimp only at htree
  rw [hnull, if_neg Bool.false_ne_true] at htree
  cases kind with
  | string separator caseSensitive =>
    exact fun name => ⟨.string text, rfl, rfl, readsSame_text hhash htree⟩
  | text weight phonetic =>
    exact fun name => ⟨.string text, rfl, rfl, readsSame_text hhash htree⟩
  | number literals => exact bothRead_number hhash htree
  | bigInt literals => exact bothRead_bigInt hhash htree
  | boolean => exact bothRead_boolean hhash htree
  | date => exact bothRead_date hdated hhash htree
  | point => exact bothRead_point hhash htree
  | vector options => exact bothRead_vector hhash htree
  | array element separator => cases hleaf
  | tuple positions => cases hleaf
  | object fields => cases hleaf

end Kinds

/-- The text of a number in JSON has a point or an exponent. -/
theorem mark_mem_text_json (d : Decimal) :
    '.' ∈ (d.text .json).toList ∨ 'e' ∈ (d.text .json).toList := by
  unfold Decimal.text
  split
  · left
    unfold Decimal.positionalText
    split
    · simp [Layout.json]
    · rename_i hne
      cases hchars : d.fractionChars with
      | nil => exact absurd hchars hne
      | cons c cs => simp [Decimal.pointed]
  · right
    simp [Decimal.scientificText]

/-- The text of an integer has only digits and a sign. -/
theorem not_mem_intText {c : Char} (hsign : c ≠ '-') (hdigit : ∀ d : Decimal.Digit, d.toChar ≠ c)
    (i : Int) : c ∉ (Decimal.intText i).toList := by
  rw [Decimal.toList_intText]
  intro h
  rcases List.mem_append.1 h with h | h
  · split at h <;> simp [hsign] at h
  · obtain ⟨d, _, hd⟩ := List.mem_map.1 h
    exact hdigit d hd

/-- A whole number below `10 ^ 15` has no text that both forms share. -/
theorem not_textAlike_of_integer {x : Finite64} {i : Int} (hint : x.toInt? = some i)
    (hsmall : i.natAbs < 1000000000000000) : ¬textAlike (.number (.finite x)) := by
  rintro ⟨y, hy, htexts⟩
  obtain rfl := Floating.finite.inj hy
  have htoken : Hash.numberText x = Decimal.intText i := by
    have hbind : (Floating.finite x).toFinite?.bind Floating.Finite.toInt? = some i := hint
    rw [Hash.numberText, Floating.token, hbind]
    exact if_pos hsmall
  rw [htoken] at htexts
  have hpoint := not_mem_intText (c := '.') (by decide) (by decide) i
  have hexponent := not_mem_intText (c := 'e') (by decide) (by decide) i
  rw [htexts] at hpoint hexponent
  have hmark := mark_mem_text_json (x.shortest Layout.json.tie)
  simp only [Json.Number.text, Floating.Finite.text, String.toList_append, List.mem_append,
    not_or] at hpoint hexponent
  rcases hmark with h | h
  · exact hpoint.2 h
  · exact hexponent.2 h

/-! ## Arrays -/

/-- A tree in which a value other than null is read has something there. -/
theorem isNull_of_readsSame {a : Value} (ha : a.isNull = false) {below : String} {kind : Kind}
    {json : Json} (h : ReadsSame (Tree.decodeKind below kind json) a) : json.isNull = false := by
  obtain ⟨b, hread, hsame⟩ := h
  cases json with
  | null =>
    rw [Tree.decodeKind_null] at hread
    exact absurd (Except.ok.inj hread).symm (ne_null_of_same ha hsame)
  | _ => rfl

/-- An element of a kind of scalar is read as a field of that kind. -/
theorem decodeElement_scalar (path : String) (kind : Scalar) (json : Json) :
    Tree.decodeElement path (.scalar kind) json =
      Tree.decodeKind path (Kind.ofScalar kind) json := by
  rw [Tree.decodeElement, Tree.decodeScalar_eq]

/-- The elements of an array are read from the hash, and alike from the tree exactly if both forms
have each of them alike. -/
theorem readings_elements {kind : Scalar} {vs : List Value}
    (hdated : ∀ w ∈ vs, leafDated (Kind.ofScalar kind) w) {path : String} {separator : Char}
    {index : Nat} {texts : List String}
    (hhash : Hash.elementTexts path kind separator index vs = .ok texts) {place : String}
    {index' : Nat} {jsons : List Json}
    (htree : Tree.encodeItems place (fun path v => Tree.encodeElement path (.scalar kind) v) index'
      vs = .ok jsons) (name : String) :
    ∃ as, texts.mapM (Hash.readScalar name kind) = .ok as ∧
      ∀ below start, ((∀ json ∈ jsons, json.isNull = false) ∧
        ∃ bs, Tree.decodeItems below (fun path json => Tree.decodeElement path (.scalar kind) json)
          start jsons = .ok bs ∧ Value.sameItems as bs = true) ↔
            ∀ w ∈ vs, leafAlike (Kind.ofScalar kind) w := by
  induction vs generalizing index texts index' jsons with
  | nil =>
    obtain rfl := Except.ok.inj hhash
    obtain rfl := Except.ok.inj htree
    refine ⟨[], rfl, ?_⟩
    intro below start
    exact iff_of_true ⟨by simp, [], rfl, rfl⟩ (by simp)
  | cons v vs ih =>
    obtain ⟨hv, hvs⟩ := List.forall_mem_cons.1 hdated
    obtain ⟨text, others, ⟨hnull, htext, _⟩, hothers, rfl⟩ := Hash.elementTexts_cons_eq_ok hhash
    obtain ⟨json, hjson, htree⟩ := bind_eq_ok.1 htree
    obtain ⟨rest, hrest, htree⟩ := bind_eq_ok.1 htree
    obtain rfl := pure_eq_ok.1 htree
    obtain ⟨as, has, halike⟩ := ih hvs hothers hrest
    -- the hash has no text for a null, so every element written is a value
    have hpresent : v.isNull = false := by
      cases v <;> first | rfl | exact absurd rfl hnull
    have hwrite : Tree.encodeKind (Tree.itemPath place index') (Kind.ofScalar kind) v =
        .ok json := by
      rw [← Tree.encodeScalar_eq]
      exact hjson
    obtain ⟨a, hread, ha, hsame⟩ :=
      bothRead_leaf (Default.isLeaf_ofScalar kind) hpresent hv htext hwrite name
    refine ⟨a :: as, ?_, ?_⟩
    · rw [List.mapM_cons, Hash.readScalar_eq, hread, ok_bind, has]
      rfl
    · intro below start
      have hfirst := hsame (Tree.itemPath below start)
      have hlater := halike below (start + 1)
      rw [List.forall_mem_cons, List.forall_mem_cons, ← hfirst, ← hlater]
      constructor
      · rintro ⟨⟨hjson, hnulls⟩, bs, hbs, hall⟩
        obtain ⟨b, hb, hbs⟩ := bind_eq_ok.1 hbs
        obtain ⟨cs, hcs, hbs⟩ := bind_eq_ok.1 hbs
        obtain rfl := pure_eq_ok.1 hbs
        rw [Value.sameItems, Bool.and_eq_true] at hall
        exact ⟨⟨b, (decodeElement_scalar _ kind json).symm.trans hb, hall.1⟩, hnulls, cs, hcs,
          hall.2⟩
      · rintro ⟨hreads, hnulls, cs, hcs, hall⟩
        have hjson := isNull_of_readsSame ha hreads
        obtain ⟨b, hb, hone⟩ := hreads
        refine ⟨⟨hjson, hnulls⟩, b :: cs, ?_, ?_⟩
        · rw [Tree.decodeItems, decodeElement_scalar, hb, ok_bind, hcs]
          rfl
        · rw [Value.sameItems, hone, hall]
          rfl

/-- An array is read from the hash, and alike from the tree exactly if both forms have each element
alike. -/
theorem readings_array {kind : Scalar} {separator : Char} {v : Value}
    (hdated : eachScalar leafDated (.array (.scalar kind) separator) v) {path text : String}
    (hhash : Hash.kindText path (.array (.scalar kind) separator) v = .ok text) {place : String}
    {json : Json} (htree : Tree.encodeKind place (.array (.scalar kind) separator) v = .ok json)
    (name : String) :
    ∃ a, Hash.readKind name (.array (.scalar kind) separator) text = .ok a ∧
      ∀ below, ReadsSame (Tree.decodeKind below (.array (.scalar kind) separator) json) a ↔
        eachScalar leafAlike (.array (.scalar kind) separator) v := by
  obtain ⟨ws, texts, rfl, htexts, rfl⟩ := Hash.kindText_array_eq_ok hhash
  obtain ⟨vs, hvs, htree⟩ := bind_eq_ok.1 htree
  obtain rfl := Admission.items_eq_ok hvs
  obtain ⟨jsons, hjsons, htree⟩ := bind_eq_ok.1 htree
  obtain rfl := pure_eq_ok.1 htree
  obtain ⟨as, has, halike⟩ := readings_elements (hdated ws rfl) htexts hjsons name
  have heach : eachScalar leafAlike (.array (.scalar kind) separator) (.array ws) ↔
      ∀ w ∈ ws, leafAlike (Kind.ofScalar kind) w := by
    simp [eachScalar]
  refine ⟨.array as, ?_, ?_⟩
  · rw [Hash.readKind, Hash.pieces_elementTexts htexts, has]
    rfl
  · intro below
    rw [heach, ← halike below 0]
    constructor
    · rintro ⟨b, hb, hsame⟩
      obtain ⟨items, hitems, hb⟩ := bind_eq_ok.1 hb
      obtain ⟨bs, hbs, hb⟩ := bind_eq_ok.1 hb
      obtain rfl := pure_eq_ok.1 hb
      obtain ⟨heq, hnulls⟩ := Tree.nonNullItems_eq_ok hitems
      obtain rfl := Json.array.inj heq
      exact ⟨hnulls, bs, hbs, hsame⟩
    · rintro ⟨hnulls, bs, hbs, hsame⟩
      refine ⟨.array bs, ?_, hsame⟩
      show (Tree.nonNullItems below .array (.array jsons) >>= fun items =>
        Tree.decodeItems below
          (fun path json => Tree.decodeElement path (.scalar kind) json) 0 items >>= fun vs =>
            pure (Value.array vs)) = _
      rw [Tree.nonNullItems_eq hnulls, ok_bind, hbs]
      rfl

/-- The only scalar of a leaf field is its value. -/
theorem eachScalar_leaf (p : Kind → Value → Prop) {kind : Kind} (hleaf : kind.isLeaf = true)
    (v : Value) : eachScalar p kind v ↔ p kind v := by
  cases kind <;> first | exact Iff.rfl | cases hleaf

/-- What is written for a value of a field is read from the hash, and alike from the tree exactly if
both forms have every scalar in it alike. -/
theorem readings_kind {kind : Kind} {v : Value} (hnull : v.isNull = false)
    (hdated : eachScalar leafDated kind v) {path text : String}
    (hhash : Hash.kindText path kind v = .ok text) {place : String} {json : Json}
    (htree : Tree.encodeKind place kind v = .ok json) (name : String) :
    ∃ a, Hash.readKind name kind text = .ok a ∧
      ∀ below, ReadsSame (Tree.decodeKind below kind json) a ↔ eachScalar leafAlike kind v := by
  by_cases hleaf : kind.isLeaf = true
  · rw [eachScalar_leaf _ hleaf] at hdated
    obtain ⟨a, hread, _, hsame⟩ := bothRead_leaf hleaf hnull hdated hhash htree name
    exact ⟨a, hread, fun below => (hsame below).trans (eachScalar_leaf _ hleaf v).symm⟩
  · cases kind with
    | array element separator =>
      cases element with
      | scalar kind => exact readings_array hdated hhash htree name
      | object fields => cases hhash
    | tuple positions => cases hhash
    | object fields => cases hhash
    | _ => exact absurd rfl hleaf

/-! ## Documents -/

/-- There is no scalar in a null that the forms could disagree on. -/
theorem eachScalar_null (kind : Kind) : eachScalar leafAlike kind .null := by
  cases kind with
  | array element separator => cases element <;> simp [eachScalar, leafAlike]
  | _ => trivial

/-- What a hash has for a field, read. -/
def readText (hash : Entries String) (name : String) (kind : Kind) : Except DecodeError Value :=
  match hash.get? name with
  | none => pure .null
  | some raw => Hash.readKind name kind raw

/-- What a tree has for a field, read. -/
def readMember (path : String) (members : Entries Json) (name : String) (kind : Kind) :
    Except DecodeError Value :=
  match members.get? name with
  | none => pure .null
  | some json => Tree.decodeKind (Tree.below path name) kind json

/-- The fields of a hash are read one after the other. -/
theorem decodeFields_hash (hash : Entries String) (name : String) (field : Field)
    (rest : Entries Field) :
    Hash.decodeFields hash ((name, field) :: rest) =
      (readText hash name field.kind >>= fun v =>
        Hash.decodeFields hash rest >>= fun vs => pure ((name, v) :: vs)) := by
  rw [Hash.decodeFields, readText]
  cases hash.get? name <;> rfl

/-- The fields of a level of a tree are read one after the other. -/
theorem decodeFields_tree (path : String) (members : Entries Json) (name : String) (field : Field)
    (rest : Entries Field) :
    Tree.decodeFields path ((name, field) :: rest) members =
      (readMember path members name field.kind >>= fun v =>
        Tree.decodeFields path rest members >>= fun vs => pure ((name, v) :: vs)) := by
  obtain ⟨kind, optional, sortable, indexed, default⟩ := field
  rw [Tree.decodeFields, readMember]
  cases members.get? name <;> rfl

/-- The first field is read from the hash, and alike from the tree exactly if both forms have its
value alike. The other fields are written and found without it. -/
theorem readings_field {name : String} {field : Field} {rest : Entries Field}
    (hordered : Entries.Ordered ((name, field) :: rest)) {doc : Document}
    (hdated : ∀ v, effective doc name field.default = some v → eachScalar leafDated field.kind v)
    {texts : Entries String} (hhash : Hash.encodeFields doc ((name, field) :: rest) = .ok texts)
    {place : String} {inside : Entries Json}
    (htree : Tree.encodeFields place ((name, field) :: rest) doc = .ok inside)
    {hash : Entries String} (htexts : Agree ((name, field) :: rest) hash texts)
    {members : Entries Json} (hinside : Agree ((name, field) :: rest) members inside)
    (below : String) :
    (∃ others, Hash.encodeFields doc rest = .ok others ∧ Agree rest hash others) ∧
      (∃ others, Tree.encodeFields place rest doc = .ok others ∧ Agree rest members others) ∧
      ∃ a, readText hash name field.kind = .ok a ∧
        (ReadsSame (readMember below members name field.kind) a ↔
          ∀ v, effective doc name field.default = some v → eachScalar leafAlike field.kind v) := by
  obtain ⟨others, hothers, hcases⟩ := Hash.encodeFields_cons hhash
  have hnulls : ReadsSame (.ok .null) .null := readsSame_ok.2 rfl
  rcases Tree.encodeFields_cons htree with
    ⟨hnone, hrest⟩ | ⟨v, json, rest', heffective, hjson, hrest, rfl⟩
  · rcases hcases with ⟨rfl, _⟩ | ⟨v, _, hsome, _⟩
    · obtain ⟨habsent, htexts⟩ := htexts.absent hordered (Hash.keys_encodeFields hothers)
      obtain ⟨habsent', hinside⟩ := hinside.absent hordered (Tree.keys_encodeFields hrest)
      -- neither form has the field, and both readers find a null
      refine ⟨⟨_, hothers, htexts⟩, ⟨_, hrest, hinside⟩, .null, ?_, ?_⟩
      · rw [readText, habsent]
        rfl
      · rw [readMember, habsent', hnone]
        exact iff_of_true hnulls (by simp)
    · rw [hnone] at hsome
      contradiction
  · obtain ⟨hpresent, hmembers⟩ := hinside.present hordered
    rcases hcases with ⟨rfl, hnull⟩ | ⟨w, text, hsome, hne, htext, rfl⟩
    · obtain ⟨habsent, htexts⟩ := htexts.absent hordered (Hash.keys_encodeFields hothers)
      rw [heffective, Option.getD_some] at hnull
      -- the hash leaves a null out, the tree writes it
      subst hnull
      rw [Tree.encodeKind_null] at hjson
      obtain rfl := Except.ok.inj hjson
      refine ⟨⟨_, hothers, htexts⟩, ⟨_, hrest, hmembers⟩, .null, ?_, ?_⟩
      · rw [readText, habsent]
        rfl
      · rw [readMember, hpresent, heffective]
        dsimp only
        rw [Tree.decodeKind_null]
        refine iff_of_true hnulls ?_
        intro v hv
        rw [← Option.some.inj hv]
        exact eachScalar_null field.kind
    · obtain ⟨hpresent', htexts⟩ := htexts.present hordered
      rw [heffective] at hsome
      obtain rfl := Option.some.inj hsome
      have hvalue : v.isNull = false := by
        cases v <;> first | rfl | exact absurd rfl hne
      obtain ⟨a, hread, hsame⟩ :=
        readings_kind hvalue (hdated v heffective) htext hjson name
      refine ⟨⟨_, hothers, htexts⟩, ⟨_, hrest, hmembers⟩, a, ?_, ?_⟩
      · rw [readText, hpresent']
        exact hread
      · rw [readMember, hpresent, heffective]
        dsimp only
        rw [hsame]
        simp

/-- The fields are read from the hash, and alike from the tree exactly if both forms have every
scalar in them alike. -/
theorem readings_fields {fields : Entries Field} (hordered : fields.Ordered) {doc : Document}
    (hdated : eachField leafDated fields doc) {texts : Entries String}
    (hhash : Hash.encodeFields doc fields = .ok texts) {place : String} {inside : Entries Json}
    (htree : Tree.encodeFields place fields doc = .ok inside) {hash : Entries String}
    (htexts : Agree fields hash texts) {members : Entries Json}
    (hinside : Agree fields members inside) (below : String) :
    ∃ as, Hash.decodeFields hash fields = .ok as ∧
      ((∃ bs, Tree.decodeFields below fields members = .ok bs ∧
        Value.sameMembers as bs = true) ↔ eachField leafAlike fields doc) := by
  induction fields generalizing texts inside with
  | nil => exact ⟨[], rfl, iff_of_true ⟨[], rfl, rfl⟩ (by simp [eachField])⟩
  | cons first rest ih =>
    obtain ⟨name, field⟩ := first
    obtain ⟨hfirst, hlater⟩ := List.forall_mem_cons.1 hdated
    obtain ⟨⟨others, hothers, htexts⟩, ⟨rest', hrest, hinside⟩, a, ha, hsame⟩ :=
      readings_field hordered hfirst hhash htree htexts hinside below
    obtain ⟨as, has, halike⟩ := ih hordered.tail hlater hothers hrest htexts hinside
    refine ⟨(name, a) :: as, ?_, ?_⟩
    · rw [decodeFields_hash, ha, ok_bind, has]
      rfl
    · have hsplit : eachField leafAlike ((name, field) :: rest) doc ↔
          (∀ v, effective doc name field.default = some v → eachScalar leafAlike field.kind v) ∧
            eachField leafAlike rest doc := List.forall_mem_cons
      rw [hsplit, ← hsame, ← halike, decodeFields_tree]
      constructor
      · rintro ⟨bs, hbs, hall⟩
        obtain ⟨b, hb, hbs⟩ := bind_eq_ok.1 hbs
        obtain ⟨cs, hcs, hbs⟩ := bind_eq_ok.1 hbs
        obtain rfl := pure_eq_ok.1 hbs
        rw [Value.sameMembers, Bool.and_eq_true, Bool.and_eq_true] at hall
        exact ⟨⟨b, hb, hall.1.2⟩, cs, hcs, hall.2⟩
      · rintro ⟨⟨b, hb, hone⟩, cs, hcs, hall⟩
        refine ⟨(name, b) :: cs, ?_, Value.sameMembers_cons name hone hall⟩
        rw [hb, ok_bind, hcs]
        rfl

end Agreement

/-- A document of fields only that both forms accept is read from its hash, and the document that is
read from its tree equals that one exactly if each number that it has for a text has one text in
both forms. Dates outside the years 0 to 9999 are left aside. -/
theorem Schema.readings_same_iff {schema : Schema} (hschema : schema.IsCanonical) {doc : Document}
    (hkeys : ∀ e ∈ doc, schema.fields.contains e.1 = true)
    (hdated : eachField leafDated schema.fields doc) {hash : Entries String}
    (hhash : schema.encodeHash doc = .ok hash) {json : Json}
    (htree : schema.encodeTree doc = .ok json) :
    ∃ a, schema.decodeHash hash = .ok a ∧
      ((∃ b, schema.decodeTree json = .ok b ∧ Value.sameMembers a b = true) ↔
        eachField leafAlike schema.fields doc) := by
  have hordered := hschema.sound.ordered
  have hnone := undescribed_eq_nil hkeys
  obtain ⟨texts, htexts, hhash⟩ := Outcome.bind_eq_ok.1 hhash
  rw [hnone] at hhash
  obtain rfl := Except.ok.inj hhash
  obtain ⟨members, hmembers, rfl⟩ := Outcome.map_eq_ok.1 htree
  obtain ⟨inside, hinside, hmembers⟩ := Outcome.bind_eq_ok.1 hmembers
  rw [hnone] at hmembers
  obtain rfl := Except.ok.inj hmembers
  have hhashNone := undescribed_eq_nil (contains_of_sublist (Hash.keys_encodeFields htexts))
  have htreeNone := undescribed_eq_nil (contains_of_sublist (Tree.keys_encodeFields hinside))
  obtain ⟨as, has, halike⟩ := Agreement.readings_fields hordered hdated htexts hinside
    (fun _ _ => rfl) (fun _ _ => rfl) ""
  have hread : schema.decodeHash texts = .ok as := by
    rw [Schema.decodeHash, has, Outcome.ok_bind, hhashNone]
    rfl
  have hreads : schema.decodeTree (.object inside) = Tree.decodeFields "" schema.fields inside := by
    rw [Schema.decodeTree, Tree.decodeMembers, htreeNone]
    cases Tree.decodeFields "" schema.fields inside <;> rfl
  refine ⟨as, hread, ?_⟩
  rw [← halike]
  exact exists_congr fun b => and_congr_left' (by rw [← hreads]; rfl)

/-! ## A ticket -/

/-- A text, a number, an array of texts, and a date. -/
def ticketDeclarations : Declarations :=
  [("code", .shorthand "string"), ("paid", .shorthand "number"),
    ("seats", .full { kind := "array" } (some (.kind "text")) none none),
    ("when", .shorthand "date")]

/-- The schema that a ticket is declared with. -/
def ticketSchema : Schema where
  fields := [
    ("code", .ofKind (.string ',' false)),
    ("paid", .ofKind (.number none)),
    ("seats", .ofKind (.array (.scalar .text) ',')),
    ("when", .ofKind .date)]
  references := []
  relations := []
  warnings := []

/-- One half in double precision. -/
def oneHalf : Finite64 := ⟨false, 4503599627370496, -53, by decide⟩

/-- A ticket with a truth value and one half for texts, a negative zero, and one and a half seconds
as a number. -/
def ticket : Document :=
  [("code", .bool true), ("paid", .number (.finite (.zero true))),
    ("seats", .array [.string "a", .number (.finite oneHalf)]),
    ("when", .number (Floating.ofInt .binary64 1500))]

/-- The hash of the ticket: the zero has lost its sign, and seconds stand for the date. -/
def ticketHash : Entries String :=
  [("code", "true"), ("paid", "0"), ("seats", "a,0.5"), ("when", "1.5")]

/-- The tree of the ticket, with both numbers as they are. -/
def ticketTree : Json :=
  .object [("code", .bool true), ("paid", .number (.float (.zero true))),
    ("seats", .array [.string "a", .number (.float oneHalf)]),
    ("when", .number (.integer 1500 (by decide) (by decide)))]

/-- The schema of tickets comes from its declarations. -/
theorem ticketSchema_isCanonical : ticketSchema.IsCanonical := by
  refine ⟨ticketDeclarations, ⟨by decide, ?_⟩, rfl⟩
  simp [ticketDeclarations, declarationsSatisfy, Declaration.Satisfies, declarationsSatisfy?,
    elementsSatisfy?, Elements.Satisfy, Attributes.WellFormed]

/-- A ticket without a whole number for a text is read alike from both forms. -/
theorem Schema.readings_same_iff_ticket :
    ticketSchema.IsCanonical ∧ (∀ e ∈ ticket, ticketSchema.fields.contains e.1 = true) ∧
      eachField leafDated ticketSchema.fields ticket ∧
      ticketSchema.encodeHash ticket = .ok ticketHash ∧
      ticketSchema.encodeTree ticket = .ok ticketTree ∧
      ∃ a b, ticketSchema.decodeHash ticketHash = .ok a ∧
        ticketSchema.decodeTree ticketTree = .ok b ∧ Value.sameMembers a b = true := by
  have hkeys : ∀ e ∈ ticket, ticketSchema.fields.contains e.1 = true := by
    simp [ticket, ticketSchema, Entries.contains, Entries.get?]
  have hdated : eachField leafDated ticketSchema.fields ticket := by
    intro e he v hv
    simp only [ticketSchema, List.mem_cons, List.not_mem_nil, or_false] at he
    rcases he with rfl | rfl | rfl | rfl
    · exact trivial
    · exact trivial
    · exact fun vs _ w _ => trivial
    · have hvalue := Option.some.inj hv
      intro t ht
      rw [← hvalue] at ht
      have hinstant := Option.some.inj ht
      rw [← hinstant]
      exact ⟨by decide +kernel, by decide +kernel⟩
  have halike : eachField leafAlike ticketSchema.fields ticket := by
    intro e he v hv
    simp only [ticketSchema, List.mem_cons, List.not_mem_nil, or_false] at he
    rcases he with rfl | rfl | rfl | rfl
    · rw [← Option.some.inj hv]
      exact trivial
    · exact trivial
    · rintro vs rfl w hw
      have hitems := Value.array.inj (Option.some.inj hv)
      rw [← hitems] at hw
      simp only [List.mem_cons, List.not_mem_nil, or_false] at hw
      rcases hw with rfl | rfl
      · exact trivial
      · exact ⟨oneHalf, rfl, by decide +kernel⟩
    · exact trivial
  have hhash : ticketSchema.encodeHash ticket = .ok ticketHash := by decide +kernel
  have htree : ticketSchema.encodeTree ticket = .ok ticketTree := rfl
  obtain ⟨a, ha, hsame⟩ :=
    Schema.readings_same_iff ticketSchema_isCanonical hkeys hdated hhash htree
  obtain ⟨b, hb, hequal⟩ := hsame.2 halike
  exact ⟨ticketSchema_isCanonical, hkeys, hdated, hhash, htree, a, b, ha, hb, hequal⟩

/-- A ticket with a whole number for its code, which has no text that both forms share, is read from
its hash with another code than from its tree. -/
theorem Schema.readings_differ_ticket :
    ticketSchema.IsCanonical ∧
      ¬eachField leafAlike ticketSchema.fields [("code", .number (Floating.ofInt .binary64 42))] ∧
      ticketSchema.encodeHash [("code", .number (Floating.ofInt .binary64 42))] =
        .ok [("code", "42")] ∧
      ticketSchema.encodeTree [("code", .number (Floating.ofInt .binary64 42))] =
        .ok (.object [("code", .ofBinary (Floating.ofInt .binary64 42))]) ∧
      ticketSchema.decodeHash [("code", "42")] =
        .ok [("code", .string "42"), ("paid", .null), ("seats", .null), ("when", .null)] ∧
      ticketSchema.decodeTree (.object [("code", .ofBinary (Floating.ofInt .binary64 42))]) =
        .ok [("code", .string "42.0"), ("paid", .null), ("seats", .null), ("when", .null)] ∧
      Value.sameMembers
        [("code", .string "42"), ("paid", .null), ("seats", .null), ("when", .null)]
        [("code", .string "42.0"), ("paid", .null), ("seats", .null), ("when", .null)] = false := by
  have hhash : ticketSchema.encodeHash [("code", .number (Floating.ofInt .binary64 42))] =
      .ok [("code", "42")] := by decide +kernel
  obtain ⟨x, hx, hint⟩ : ∃ x, Floating.ofInt .binary64 42 = .finite x ∧ x.toInt? = some 42 :=
    ⟨_, rfl, rfl⟩
  have hapart :
      ¬eachField leafAlike ticketSchema.fields [("code", .number (Floating.ofInt .binary64 42))] := by
    intro halike
    have hcode := halike ("code", .ofKind (.string ',' false)) (List.mem_cons_self ..) _ rfl
    rw [hx] at hcode
    exact Agreement.not_textAlike_of_integer hint (by decide) hcode
  exact ⟨ticketSchema_isCanonical, hapart, hhash, rfl, rfl, rfl, by decide +kernel⟩

end DocumentSchema
