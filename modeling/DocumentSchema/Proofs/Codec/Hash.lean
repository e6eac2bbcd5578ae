import DocumentSchema.Codec.Hash
import DocumentSchema.Proofs.Codec.Admission
import DocumentSchema.Proofs.Coordinates
import DocumentSchema.Proofs.Decimal.Numeral
import DocumentSchema.Proofs.Floating.Text
import DocumentSchema.Proofs.Schema.Canonical
import DocumentSchema.Proofs.Text.Separated
import DocumentSchema.Proofs.Value.Same

/-!
# Documents read back from hashes

Every text of a hash is read back as the value it was written for, up to the sign of a zero. An
array is one text: its pieces are not empty and do not hold the separator, so splitting the text
gives them again, and the empty text can only be the empty array. Dates are left aside, because
their text is a fraction of seconds.
-/

set_option autoImplicit false

namespace DocumentSchema.Hash

open Outcome

/-! ## Numbers -/

/-- The text of a number holds number characters only, and is read as a number of the same value
and the same text. -/
theorem readNumber_numberText (path : String) (x : Finite64) :
    ∃ y, readNumber path (numberText x) = .ok y ∧ y.units = x.units ∧
      numberText y = numberText x := by
  obtain ⟨y, hread, hunits⟩ := Floating.readChars?_token x
  have htrim : Text.trimmed (numberText x) = (numberText x).toList :=
    Decimal.trim_eq_self fun c hc =>
      Decimal.not_isBlank_of_isNumberChar ((Floating.token_chars x).2 c hc)
  have hfinite : (Floating.readChars? .binary64 (Text.trimmed (numberText x))).bind
      Floating.toFinite? = some y := by
    rw [htrim, numberText, hread]
    rfl
  refine ⟨y, ?_, hunits, Floating.token_of_readChars?_token hread⟩
  rw [readNumber, hfinite]

/-- A number has a text that is not empty. -/
theorem isEmpty_numberText (x : Finite64) : (numberText x).isEmpty = false := by
  obtain ⟨hne, _⟩ := Floating.token_chars x
  rw [← Bool.not_eq_true, String.isEmpty_iff, ← String.toList_eq_nil_iff]
  exact hne

/-- No number has a comma in its text. -/
theorem comma_not_mem_numberText (x : Finite64) : vectorSeparator ∉ (numberText x).toList := by
  intro hmem
  exact absurd ((Floating.token_chars x).2 vectorSeparator hmem) (by decide)

/-- The pieces of joined texts that are not empty and do not hold the separator. -/
theorem pieces_joined {separator : Char} {texts : List String}
    (h : ∀ text ∈ texts, text.isEmpty = false ∧ separator ∉ text.toList) :
    pieces separator (Text.joined separator texts) = texts := by
  cases texts with
  | nil => rfl
  | cons text rest =>
    have hempty : (Text.joined separator (text :: rest)).isEmpty = false :=
      Text.joined_ne_empty (h text List.mem_cons_self).1 rest
    rw [pieces, hempty, if_neg Bool.false_ne_true]
    exact Text.split_joined (List.cons_ne_nil text rest) fun piece hpiece => (h piece hpiece).2

/-- The texts of the components of a vector are read together, as equal numbers with the same
texts. -/
theorem mapM_readNumber (path : String) (xs : List Finite64) :
    ∃ ys, (xs.map numberText).mapM (readNumber path) = .ok ys ∧
      Value.sameItems (ys.map fun y => .number (.finite y))
        (xs.map fun x => .number (.finite x)) = true ∧
      ys.map numberText = xs.map numberText := by
  induction xs with
  | nil => exact ⟨[], rfl, rfl, rfl⟩
  | cons x xs ih =>
    obtain ⟨y, hy, hunits, htext⟩ := readNumber_numberText path x
    have hsame : (Value.number (.finite y)).same (.number (.finite x)) = true :=
      decide_eq_true hunits
    obtain ⟨ys, hys, hsames, htexts⟩ := ih
    refine ⟨y :: ys, ?_, ?_, ?_⟩
    · rw [List.map_cons, List.mapM_cons, hy, ok_bind, hys]
      rfl
    · rw [List.map_cons, List.map_cons, Value.sameItems, hsame, hsames]
      rfl
    · rw [List.map_cons, List.map_cons, htext, htexts]

/-! ## Kinds -/

/-- A value that reading a field of a kind can give, or that no text can be written for. -/
def kindConforms : Kind → Value → Prop
  | .array (.scalar kind) _, v =>
    v = .null ∨ ∃ vs, v = .array vs ∧ ∀ w ∈ vs, w = .null ∨ (Kind.ofScalar kind).DecodesTo w
  | .array (.object _) _, _ => True
  | .tuple _, _ => True
  | .object _, _ => True
  | kind, v => v = .null ∨ kind.DecodesTo v

/-- Whether a field of the kind has dates, alone or in an array. -/
def ofDates : Kind → Bool
  | .date => true
  | .array (.scalar .date) _ => true
  | _ => false

/-- The numbers of a vector are the pieces of its text. -/
theorem pieces_numberTexts (xs : List Finite64) :
    pieces vectorSeparator (Text.joined vectorSeparator (xs.map numberText)) =
      xs.map numberText := by
  apply pieces_joined
  intro text htext
  obtain ⟨x, _, rfl⟩ := List.mem_map.1 htext
  exact ⟨isEmpty_numberText x, comma_not_mem_numberText x⟩

/-- The text of a vector is read as a vector of the same numbers. -/
theorem readKind_vector (path : String) (options : VectorOptions) (xs : List Finite64) :
    ∃ w, readKind path (.vector options)
        (Text.joined vectorSeparator (xs.map numberText)) = .ok w ∧
      w.same (.array (xs.map fun x => .number (.finite x))) = true := by
  obtain ⟨ys, hys, hsame, _⟩ := mapM_readNumber path xs
  refine ⟨.array (ys.map fun y => .number (.finite y)), ?_, hsame⟩
  rw [readKind, pieces_numberTexts, hys]
  rfl

/-- The text of a value of a leaf kind is read as a value that equals it. -/
theorem readKind_leaf {kind : Kind} (hdates : ofDates kind = false) {v : Value}
    (hv : kind.DecodesTo v) {path text : String} (hwrite : kindText path kind v = .ok text)
    (below : String) : ∃ w, readKind below kind text = .ok w ∧ w.same v = true := by
  cases kind with
  | string separator caseSensitive =>
    obtain ⟨s, rfl⟩ := hv
    obtain rfl := Except.ok.inj hwrite
    exact ⟨_, rfl, decide_eq_true rfl⟩
  | text weight phonetic =>
    obtain ⟨s, rfl⟩ := hv
    obtain rfl := Except.ok.inj hwrite
    exact ⟨_, rfl, decide_eq_true rfl⟩
  | number literals =>
    obtain ⟨x, rfl⟩ := hv
    obtain ⟨y, hy, rfl⟩ := map_eq_ok.1 hwrite
    obtain rfl := Admission.number_eq_ok hy
    obtain ⟨z, hz, hunits, _⟩ := readNumber_numberText below y
    refine ⟨.number (.finite z), ?_, decide_eq_true hunits⟩
    rw [readKind, hz]
    rfl
  | bigInt literals =>
    obtain ⟨i, rfl⟩ := hv
    obtain ⟨j, hj, rfl⟩ := map_eq_ok.1 hwrite
    obtain rfl := Admission.bigInt_eq_ok hj
    refine ⟨.bigInt i, ?_, decide_eq_true rfl⟩
    rw [readKind, readBigInt, Int128.read_text]
    rfl
  | boolean =>
    obtain ⟨b, rfl⟩ := hv
    obtain rfl := Except.ok.inj hwrite
    exact ⟨.bool b, by cases b <;> rfl, decide_eq_true rfl⟩
  | date => cases hdates
  | point =>
    obtain ⟨p, rfl⟩ := hv
    obtain ⟨q, hq, rfl⟩ := map_eq_ok.1 hwrite
    obtain ⟨rfl, hvalid⟩ := Admission.point_eq_ok hq
    refine ⟨.point p, ?_, Value.same_point hvalid⟩
    rw [readKind, readPoint, Coordinates.read?_text_of_isValid hvalid]
    rfl
  | vector options =>
    obtain ⟨vs, rfl, _⟩ := hv
    obtain ⟨xs, hxs, hwrite⟩ := bind_eq_ok.1 hwrite
    obtain rfl := pure_eq_ok.1 hwrite
    obtain rfl := Admission.vector_eq_ok hxs
    exact readKind_vector below options xs
  | array element separator => exact absurd hv id
  | tuple positions => exact absurd hv id
  | object fields => exact absurd hv id

/-- An element of a kind of scalar is written as a field of that kind. -/
theorem scalarText_eq (path : String) (kind : Scalar) (v : Value) :
    scalarText path kind v = kindText path (Kind.ofScalar kind) v := by
  cases kind <;> rfl

/-- An element of a kind of scalar is read as a field of that kind. -/
theorem readScalar_eq (path : String) (kind : Scalar) (raw : String) :
    readScalar path kind raw = readKind path (Kind.ofScalar kind) raw := by
  cases kind <;> rfl

/-- An element that is written is not null, and its text is one piece of the array. -/
theorem elementText_eq_ok {path : String} {kind : Scalar} {separator : Char} {index : Nat} {v : Value}
    {text : String} (h : elementText path kind separator index v = .ok text) :
    v ≠ .null ∧ scalarText path kind v = .ok text ∧ text.isEmpty = false ∧
      separator ∉ text.toList := by
  unfold elementText at h
  split at h
  · cases h
  · rename_i hnull
    obtain ⟨written, hwritten, h⟩ := bind_eq_ok.1 h
    split at h
    · cases h
    · rename_i hempty
      split at h
      · cases h
      · rename_i hseparator
        obtain rfl := pure_eq_ok.1 h
        refine ⟨?_, hwritten, Bool.not_eq_true _ ▸ hempty, hseparator⟩
        rintro rfl
        exact hnull rfl

/-- What writing the first element of an array adds to the others. -/
theorem elementTexts_cons_eq_ok {path : String} {kind : Scalar} {separator : Char} {index : Nat}
    {v : Value} {vs : List Value} {texts : List String}
    (h : elementTexts path kind separator index (v :: vs) = .ok texts) :
    ∃ text others, (v ≠ .null ∧ kindText path (Kind.ofScalar kind) v = .ok text ∧
        text.isEmpty = false ∧ separator ∉ text.toList) ∧
      elementTexts path kind separator (index + 1) vs = .ok others ∧ texts = text :: others := by
  obtain ⟨text, htext, h⟩ := bind_eq_ok.1 h
  obtain ⟨others, hothers, h⟩ := bind_eq_ok.1 h
  refine ⟨text, others, ?_, hothers, (pure_eq_ok.1 h).symm⟩
  rw [← scalarText_eq]
  exact elementText_eq_ok htext

/-- The texts of the elements of an array are the pieces of its text. -/
theorem pieces_elementTexts {path : String} {kind : Scalar} {separator : Char} {index : Nat}
    {vs : List Value} {texts : List String}
    (h : elementTexts path kind separator index vs = .ok texts) :
    pieces separator (Text.joined separator texts) = texts := by
  apply pieces_joined
  induction vs generalizing index texts with
  | nil =>
    obtain rfl := Except.ok.inj h
    simp
  | cons v vs ih =>
    obtain ⟨text, others, ⟨_, _, hpiece⟩, hothers, rfl⟩ := elementTexts_cons_eq_ok h
    exact List.forall_mem_cons.2 ⟨hpiece, ih hothers⟩

/-- An array of scalars is written as the texts of its items put together. -/
theorem kindText_array_eq_ok {path text : String} {kind : Scalar} {separator : Char} {v : Value}
    (h : kindText path (.array (.scalar kind) separator) v = .ok text) :
    ∃ vs texts, v = .array vs ∧ elementTexts path kind separator 0 vs = .ok texts ∧
      Text.joined separator texts = text := by
  cases v with
  | array vs =>
    obtain ⟨ws, hws, h⟩ := bind_eq_ok.1 h
    obtain rfl := Admission.items_eq_ok hws
    obtain ⟨texts, htexts, h⟩ := bind_eq_ok.1 h
    exact ⟨vs, texts, rfl, htexts, pure_eq_ok.1 h⟩
  | _ => cases h

/-- The elements of an array without dates are no dates. -/
theorem ofDates_ofScalar {kind : Scalar} {separator : Char}
    (h : ofDates (.array (.scalar kind) separator) = false) :
    ofDates (Kind.ofScalar kind) = false := by
  cases kind <;> first | rfl | cases h

/-- The texts of elements are read as values that equal the elements. -/
theorem readScalars_elementTexts {kind : Scalar} (hdates : ofDates (Kind.ofScalar kind) = false)
    {separator : Char} {vs : List Value}
    (hvs : ∀ w ∈ vs, w = .null ∨ (Kind.ofScalar kind).DecodesTo w) {path : String} {index : Nat}
    {texts : List String} (hwrite : elementTexts path kind separator index vs = .ok texts)
    (below : String) :
    ∃ ws, texts.mapM (readScalar below kind) = .ok ws ∧ Value.sameItems ws vs = true := by
  induction vs generalizing index texts with
  | nil =>
    obtain rfl := Except.ok.inj hwrite
    exact ⟨[], rfl, rfl⟩
  | cons v vs ih =>
    obtain ⟨hv, hrest⟩ := List.forall_mem_cons.1 hvs
    obtain ⟨text, others, ⟨hnull, htext, _⟩, hothers, rfl⟩ := elementTexts_cons_eq_ok hwrite
    obtain ⟨w, hw, hsame⟩ := readKind_leaf hdates (hv.resolve_left hnull) htext below
    obtain ⟨ws, hws, hsames⟩ := ih hrest hothers
    refine ⟨w :: ws, ?_, ?_⟩
    · rw [List.mapM_cons, readScalar_eq, hw, ok_bind, hws]
      rfl
    · rw [Value.sameItems, hsame, hsames]
      rfl

/-- The text of a value that conforms is read as a value that equals it. -/
theorem readKind_kindText {kind : Kind} (hdates : ofDates kind = false) {v : Value}
    (hv : kindConforms kind v) (hnull : v ≠ .null) {path text : String}
    (hwrite : kindText path kind v = .ok text) (below : String) :
    ∃ w, readKind below kind text = .ok w ∧ w.same v = true := by
  cases kind with
  | array element separator =>
    cases element with
    | scalar kind =>
      obtain ⟨vs, rfl, hvs⟩ := hv.resolve_left hnull
      obtain ⟨_, texts, ⟨⟩, htexts, rfl⟩ := kindText_array_eq_ok hwrite
      obtain ⟨ws, hws, hsame⟩ := readScalars_elementTexts (ofDates_ofScalar hdates) hvs htexts below
      refine ⟨.array ws, ?_, hsame⟩
      rw [readKind, pieces_elementTexts htexts, hws]
      rfl
    | object fields => cases hwrite
  | tuple positions => cases hwrite
  | object fields => cases hwrite
  | _ => exact readKind_leaf hdates (hv.resolve_left hnull) hwrite below

/-! ## Documents -/

/-- The fields of a schema with their values in a document, their defaults, or nulls. -/
def filledFields (fields : Entries Field) (doc : Document) : Document :=
  fields.map fun e => (e.1, (effective doc e.1 e.2.default).getD .null)

/-- The default of a leaf field without dates is a value that reading can give. -/
theorem decodesTo_of_keepsLeaf {kind : Kind} (hdates : ofDates kind = false) {v : Value}
    (h : kind.KeepsLeaf v) : kind.DecodesTo v := by
  cases kind with
  | string separator caseSensitive => exact h
  | text weight phonetic => exact h
  | number literals =>
    obtain ⟨x, hv, _⟩ := h
    exact ⟨_, hv⟩
  | bigInt literals =>
    obtain ⟨i, hv, _⟩ := h
    exact ⟨i, hv⟩
  | boolean => exact h
  | date => cases hdates
  | point =>
    obtain ⟨p, hv, _⟩ := h
    exact ⟨p, hv⟩
  | vector options =>
    obtain ⟨xs, hv, _⟩ := h
    refine ⟨_, hv, ?_⟩
    intro w hw
    obtain ⟨x, _, rfl⟩ := List.mem_map.1 hw
    exact ⟨_, rfl⟩
  | array element separator => exact h
  | tuple positions => exact h
  | object fields => exact h

/-- A default that its kind keeps is a value that reading the field can give. -/
theorem kindConforms_of_keeps {kind : Kind} (hdates : ofDates kind = false) {v : Value}
    (h : kind.Keeps v) : kindConforms kind v := by
  cases kind with
  | array element separator =>
    cases element with
    | scalar kind =>
      refine h.imp_right ?_
      rintro ⟨vs, rfl, hvs⟩
      refine ⟨vs, rfl, ?_⟩
      intro w hw
      exact (hvs w hw).imp_right (decodesTo_of_keepsLeaf (ofDates_ofScalar hdates))
    | object fields => exact trivial
  | tuple positions => exact trivial
  | object fields => exact trivial
  | _ => exact h.imp_right (decodesTo_of_keepsLeaf hdates)

/-- What writing the first field adds to the texts of the others. -/
theorem encodeFields_cons {doc : Document} {name : String} {field : Field} {rest : Entries Field}
    {texts : Entries String} (h : encodeFields doc ((name, field) :: rest) = .ok texts) :
    ∃ others, encodeFields doc rest = .ok others ∧
      (texts = others ∧ (effective doc name field.default).getD .null = .null ∨
        ∃ v text, effective doc name field.default = some v ∧ v ≠ .null ∧
          kindText name field.kind v = .ok text ∧ texts = (name, text) :: others) := by
  rw [encodeFields] at h
  dsimp only at h
  cases heffective : effective doc name field.default with
  | none =>
    rw [heffective] at h
    obtain ⟨text, htext, h⟩ := bind_eq_ok.1 h
    obtain rfl := pure_eq_ok.1 htext
    obtain ⟨others, hothers, h⟩ := bind_eq_ok.1 h
    exact ⟨others, hothers, Or.inl ⟨(pure_eq_ok.1 h).symm, rfl⟩⟩
  | some v =>
    rw [heffective] at h
    obtain ⟨text, htext, h⟩ := bind_eq_ok.1 h
    obtain ⟨others, hothers, h⟩ := bind_eq_ok.1 h
    refine ⟨others, hothers, ?_⟩
    unfold encodeKind at htext
    split at htext
    · rename_i hnull
      obtain rfl := Except.ok.inj htext
      refine Or.inl ⟨(pure_eq_ok.1 h).symm, ?_⟩
      cases v <;> first | rfl | cases hnull
    · rename_i hnull
      obtain ⟨written, hwritten, rfl⟩ := map_eq_ok.1 htext
      refine Or.inr ⟨v, written, rfl, ?_, hwritten, (pure_eq_ok.1 h).symm⟩
      rintro rfl
      exact hnull rfl

/-- The fields that are written are those whose value, their own or the default, is not null. -/
theorem keys_encodeFields_eq {doc : Document} {fields : Entries Field} {texts : Entries String}
    (h : encodeFields doc fields = .ok texts) :
    texts.keys = Entries.keys
      (fields.filter fun e => !((effective doc e.1 e.2.default).getD .null).isNull) := by
  induction fields generalizing texts with
  | nil =>
    obtain rfl := Except.ok.inj h
    rfl
  | cons first rest ih =>
    obtain ⟨name, field⟩ := first
    obtain ⟨others, hothers, hcases⟩ := encodeFields_cons h
    have hkeys := ih hothers
    rw [List.filter_cons]
    rcases hcases with ⟨rfl, hnull⟩ | ⟨v, text, hsome, hnull, _, rfl⟩
    · rw [hnull]
      exact hkeys
    · rw [hsome, Option.getD_some, if_pos (by cases v <;> first | rfl | exact absurd rfl hnull)]
      exact congrArg (name :: ·) hkeys

/-- Only fields are written, each at most once and in the order of the fields. -/
theorem keys_encodeFields {doc : Document} {fields : Entries Field} {texts : Entries String}
    (hwrite : encodeFields doc fields = .ok texts) : texts.keys.Sublist fields.keys := by
  rw [keys_encodeFields_eq hwrite]
  exact (List.filter_sublist).map _

/-- The texts of the fields are read as the values of the fields in the document. -/
theorem decodeFields_encodeFields {fields : Entries Field} (hordered : fields.Ordered)
    {doc : Document}
    (h : ∀ e ∈ fields, ofDates e.2.kind = false ∧
      ∀ v, effective doc e.1 e.2.default = some v → kindConforms e.2.kind v)
    {texts : Entries String} (hwrite : encodeFields doc fields = .ok texts) :
    ∀ hash, Agree fields hash texts → ∃ inside, decodeFields hash fields = .ok inside ∧
      Value.sameMembers inside (filledFields fields doc) = true := by
  induction fields generalizing texts with
  | nil => exact fun _ _ => ⟨[], rfl, rfl⟩
  | cons first rest ih =>
    obtain ⟨name, field⟩ := first
    obtain ⟨⟨hdates, hconforms⟩, hrest⟩ := List.forall_mem_cons.1 h
    obtain ⟨others, hothers, hcases⟩ := encodeFields_cons hwrite
    have hread := ih hordered.tail hrest hothers
    intro hash hagree
    rcases hcases with ⟨rfl, hnull⟩ | ⟨v, text, heffective, hnull, htext, rfl⟩
    · obtain ⟨habsent, hagree⟩ := hagree.absent hordered (keys_encodeFields hothers)
      obtain ⟨inside, hinside, hsame⟩ := hread hash hagree
      refine ⟨(name, .null) :: inside, ?_, ?_⟩
      · rw [decodeFields, habsent]
        dsimp only
        rw [hinside]
        rfl
      · rw [filledFields, List.map_cons, hnull]
        exact Value.sameMembers_cons name rfl hsame
    · obtain ⟨hpresent, hagree⟩ := hagree.present hordered
      obtain ⟨inside, hinside, hsames⟩ := hread hash hagree
      obtain ⟨w, hw, hsame⟩ :=
        readKind_kindText hdates (hconforms v heffective) hnull htext name
      refine ⟨(name, w) :: inside, ?_, ?_⟩
      · rw [decodeFields, hpresent]
        dsimp only
        rw [hw, ok_bind, hinside]
        rfl
      · rw [filledFields, List.map_cons, heffective]
        exact Value.sameMembers_cons name hsame hsames

/-- A value that no field describes is written unless it is null. -/
theorem isSome_undescribedText {name : String} {v : Value} {text : Option String}
    (h : undescribedText name v = .ok text) : text.isSome = !v.isNull := by
  cases v with
  | array vs => cases h
  | object members => cases h
  | _ =>
    obtain rfl := Except.ok.inj h
    rfl

/-- Of the entries that no field describes those that are not null are written. -/
theorem keys_encodeUndescribed_eq {others : Document} {texts : Entries String}
    (h : encodeUndescribed others = .ok texts) :
    texts.keys = Entries.keys (others.filter fun e => !e.2.isNull) := by
  induction others generalizing texts with
  | nil =>
    obtain rfl := Except.ok.inj h
    rfl
  | cons first rest ih =>
    obtain ⟨name, v⟩ := first
    obtain ⟨text, htext, h⟩ := bind_eq_ok.1 h
    obtain ⟨more, hmore, h⟩ := bind_eq_ok.1 h
    obtain rfl := pure_eq_ok.1 h
    have hkeys := ih hmore
    have hwritten := isSome_undescribedText htext
    rw [List.filter_cons, ← hwritten]
    cases text with
    | none => exact hkeys
    | some text => exact congrArg (name :: ·) hkeys

/-- Texts that no field describes are written as they are, and nulls are not written. -/
theorem mapValues_encodeUndescribed {others : Document}
    (h : ∀ e ∈ others, e.2 = .null ∨ ∃ s, e.2 = .string s) {texts : Entries String}
    (hwrite : encodeUndescribed others = .ok texts) :
    texts.mapValues Value.string = others.filter fun e => !e.2.isNull := by
  induction others generalizing texts with
  | nil =>
    obtain rfl := Except.ok.inj hwrite
    rfl
  | cons first rest ih =>
    obtain ⟨name, v⟩ := first
    obtain ⟨hv, hrest⟩ := List.forall_mem_cons.1 h
    obtain ⟨text, htext, hwrite⟩ := bind_eq_ok.1 hwrite
    obtain ⟨more, hmore, hwrite⟩ := bind_eq_ok.1 hwrite
    obtain rfl := pure_eq_ok.1 hwrite
    rcases hv with hv | ⟨s, hv⟩
    · dsimp only at hv
      subst hv
      obtain rfl := Except.ok.inj htext
      exact ih hrest hmore
    · dsimp only at hv
      subst hv
      obtain rfl := Except.ok.inj htext
      exact congrArg ((name, Value.string s) :: ·) (ih hrest hmore)

/-- A document that reading a hash can give, except that it may leave out fields, may have nulls
that no field describes, and may have anything at the names of links. -/
structure Conforms (schema : Schema) (doc : Document) : Prop where
  ordered : Entries.Ordered doc
  fields : ∀ name field v, schema.fields.get? name = some field → doc.get? name = some v →
    kindConforms field.kind v
  others : ∀ e ∈ undescribed schema.fields doc, schema.isLink e.1 = false →
    e.2 = .null ∨ ∃ s, e.2 = .string s

/-- The entries of a document that no field describes, without nulls and the entries at links. -/
def otherTexts (schema : Schema) (doc : Document) : Document :=
  (undescribed schema.fields doc).filter fun e => !schema.isLink e.1 && !e.2.isNull

/-- A document with the default or a null for each field that it leaves out, without nulls that no
field describes and without the entries at links. -/
def filled (schema : Schema) (doc : Document) : Document :=
  Entries.insertAll (filledFields schema.fields doc) (otherTexts schema doc)

/-- A filled document has under each field its value, its default or a null. -/
theorem get?_filledFields (fields : Entries Field) (doc : Document) (name : String) :
    (filledFields fields doc).get? name = (fields.get? name).map fun field =>
      (effective doc name field.default).getD .null := by
  induction fields with
  | nil => rfl
  | cons first rest ih =>
    obtain ⟨key, field⟩ := first
    show Entries.get? ((key, _) :: filledFields rest doc) name = _
    rw [Entries.get?, Entries.get?]
    split
    · rename_i hkey
      rw [hkey]
      rfl
    · exact ih

/-- What a filled document has at a name: the value of a field, its default or a null, nothing at a
link or where the document has a null, and otherwise what the document has there. -/
theorem get?_filled {schema : Schema} {doc : Document} (hdoc : Entries.Ordered doc) (name : String) :
    (filled schema doc).get? name =
      match schema.fields.get? name with
      | some field => some ((effective doc name field.default).getD .null)
      | none => (doc.get? name).filter fun v => !schema.isLink name && !v.isNull := by
  have hundescribed := ordered_undescribed hdoc schema.fields
  have hothers : Entries.Ordered (otherTexts schema doc) := hundescribed.filter _
  rw [filled, Entries.get?_insertAll _ hothers.distinct, otherTexts,
    hundescribed.distinct.get?_filter, get?_undescribed, get?_filledFields, Entries.contains]
  cases schema.fields.get? name with
  | none => simp
  | some field => simp

/-- The value of a field, its own or its default, conforms. -/
theorem Conforms.effective {schema : Schema} {doc : Document} (hdoc : Conforms schema doc)
    (hschema : schema.Sound) (hdates : ∀ e ∈ schema.fields, ofDates e.2.kind = false) :
    ∀ e ∈ schema.fields, ofDates e.2.kind = false ∧
      ∀ v, DocumentSchema.effective doc e.1 e.2.default = some v → kindConforms e.2.kind v := by
  rintro ⟨name, field⟩ he
  have hfield := hschema.ordered.distinct.get?_of_mem he
  refine ⟨hdates _ he, ?_⟩
  intro v hv
  unfold DocumentSchema.effective at hv
  split at hv
  · rename_i w hw
    obtain rfl := Option.some.inj hv
    exact hdoc.fields name field w hfield hw
  · exact kindConforms_of_keeps (hdates _ he) (hschema.keeps he hv)

end DocumentSchema.Hash

namespace DocumentSchema

/-- A document that conforms to a canonical schema without dates, written as a hash and read again,
equals the document with defaults or nulls for the fields left out, without undescribed nulls and
without links. -/
theorem Schema.decodeHash_encodeHash {schema : Schema} (hschema : schema.IsCanonical)
    (hdates : ∀ e ∈ schema.fields, Hash.ofDates e.2.kind = false) {doc : Document}
    (hdoc : Hash.Conforms schema doc) {hash : Entries String}
    (hwrite : schema.encodeHash doc = .ok hash) :
    ∃ result, schema.decodeHash hash = .ok result ∧
      Value.sameMembers result (Hash.filled schema doc) = true := by
  have hsound := hschema.sound
  obtain ⟨texts, htexts, hwrite⟩ := Outcome.bind_eq_ok.1 hwrite
  obtain ⟨more, hmore, hwrite⟩ := Outcome.bind_eq_ok.1 hwrite
  obtain rfl := Outcome.pure_eq_ok.1 hwrite
  have hkeys := Hash.keys_encodeFields htexts
  have hread := Hash.decodeFields_encodeFields hsound.ordered (hdoc.effective hsound hdates) htexts
  have hothers : more.mapValues Value.string = Hash.otherTexts schema doc := by
    rw [Hash.mapValues_encodeUndescribed _ hmore]
    · rw [Hash.otherTexts, List.filter_filter]
      refine List.filter_congr fun e _ => ?_
      exact Bool.and_comm _ _
    · intro e he
      obtain ⟨he, hlink⟩ := List.mem_filter.1 he
      exact hdoc.others e he (by simpa using hlink)
  have hlevel : Level schema.fields texts more := by
    have hkeysMore : more.keys = (Hash.otherTexts schema doc).keys := by
      rw [← hothers, Entries.keys, Entries.keys, Entries.mapValues, List.map_map]
      rfl
    refine ⟨hsound.ordered, hkeys, ?_, ?_⟩
    · exact ((ordered_undescribed hdoc.ordered schema.fields).filter _).of_keys_eq hkeysMore
    · intro e he
      have hname : e.1 ∈ (Hash.otherTexts schema doc).keys := by
        rw [← hkeysMore]
        exact List.mem_map_of_mem he
      obtain ⟨d, hd, hname⟩ := List.mem_map.1 hname
      rw [← hname]
      exact (mem_undescribed.1 (List.mem_of_mem_filter hd)).2
  obtain ⟨inside, hinside, hsame⟩ := hread _ hlevel.agree
  refine ⟨Entries.insertAll inside (Hash.otherTexts schema doc), ?_, ?_⟩
  · rw [Schema.decodeHash, hinside, Outcome.ok_bind, hlevel.undescribed_eq, hothers]
    rfl
  · refine Value.sameMembers_insertAll hsame fun e he => ?_
    rw [← hothers] at he
    obtain ⟨d, _, rfl⟩ := List.mem_map.1 he
    exact decide_eq_true rfl

/-! ## An account -/

/-- An array of truth values, a text with a default, a text without one, and a reference. -/
def accountDeclarations : Declarations :=
  [("flags", .full { kind := "array", separator := some ";" } (some (.kind "boolean")) none none),
    ("name", .full { kind := "string", default := some (.string "anonymous") } none none none),
    ("owner", .full { kind := "reference", target := some "Person" } none none none),
    ("title", .shorthand "string")]

/-- The schema that an account is declared with. -/
def accountSchema : Schema where
  fields := [
    ("flags", .ofKind (.array (.scalar .boolean) ';')),
    ("name", .mk (.string ',' false) false false true (some (.string "anonymous"))),
    ("title", .ofKind (.string ',' false))]
  references := [("owner", ⟨.named "Person", false⟩)]
  relations := []
  warnings := []

/-- An account with flags and an owner, and with a text and a null that no field describes. -/
def account : Document :=
  [("flags", .array [.bool true, .bool false]), ("note", .string "new"), ("owner", .string "7"),
    ("spare", .null)]

/-- The schema of accounts comes from its declarations. -/
theorem accountSchema_isCanonical : accountSchema.IsCanonical := by
  refine ⟨accountDeclarations, ⟨by decide, ?_⟩, rfl⟩
  simp [accountDeclarations, declarationsSatisfy, Declaration.Satisfies, declarationsSatisfy?,
    elementsSatisfy?, Elements.Satisfy, Attributes.WellFormed, Json.WellFormed]

/-- An account comes back from its hash with its default filled in and without its owner. -/
theorem Schema.decodeHash_encodeHash_account :
    accountSchema.IsCanonical ∧ (∀ e ∈ accountSchema.fields, Hash.ofDates e.2.kind = false) ∧
      Hash.Conforms accountSchema account ∧
      accountSchema.encodeHash account =
        .ok [("flags", "1;0"), ("name", "anonymous"), ("note", "new")] ∧
      ∃ result, accountSchema.decodeHash
          [("flags", "1;0"), ("name", "anonymous"), ("note", "new")] = .ok result ∧
        Value.sameMembers result [("flags", .array [.bool true, .bool false]),
          ("name", .string "anonymous"), ("note", .string "new"), ("title", .null)] = true := by
  have hdates : ∀ e ∈ accountSchema.fields, Hash.ofDates e.2.kind = false := by
    simp [accountSchema, Hash.ofDates, Field.kind, Field.ofKind]
  have hconforms : Hash.Conforms accountSchema account := by
    refine ⟨by decide, ?_, ?_⟩
    · intro name field v hfield hv
      have hmem := Entries.mem_of_get? hfield
      simp only [accountSchema, List.mem_cons, Prod.mk.injEq, List.not_mem_nil, or_false] at hmem
      rcases hmem with ⟨rfl, rfl⟩ | ⟨rfl, rfl⟩ | ⟨rfl, rfl⟩
      · obtain rfl := Option.some.inj hv
        exact Or.inr ⟨_, rfl, by simp [Kind.ofScalar, Kind.DecodesTo]⟩
      · cases hv
      · cases hv
    · show ∀ e ∈ [("note", Value.string "new"), ("owner", .string "7"), ("spare", .null)], _
      simp
  exact ⟨accountSchema_isCanonical, hdates, hconforms, rfl,
    Schema.decodeHash_encodeHash accountSchema_isCanonical hdates hconforms rfl⟩

end DocumentSchema
