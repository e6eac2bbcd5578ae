import DocumentSchema.Proofs.Codec.Hash

/-!
# Hashes written again

Writing brings a value into a form that reading gives back: in a field of texts a number becomes its
text, in a field of integers a whole number becomes an integer, and a zero loses its sign. From then
on nothing changes any more. A text is settled for a kind if what is read from it has this text again
(`Settled`). Whatever the value, the text that is written for it is settled (`settled_kindText`), so
a document that was read from a hash is written as the same hash (`Schema.encodeHash_decodeHash`).
-/

set_option autoImplicit false

namespace DocumentSchema.Hash

open Outcome

/-- A text from which a value is read that has this text again. -/
def Settled (path : String) (kind : Kind) (text : String) : Prop :=
  ∃ v, readKind path kind text = .ok v ∧ v.isNull = false ∧ kindText path kind v = .ok text

/-! ## Kinds -/

/-- The texts of the components of a vector, put together, are settled. -/
theorem settled_vector (path : String) {options : VectorOptions} {xs : List Finite64}
    (hlength : xs.length = options.dimension.toNat) :
    Settled path (.vector options) (Text.joined vectorSeparator (xs.map numberText)) := by
  obtain ⟨ys, hys, _, htexts⟩ := mapM_readNumber path xs
  have hpieces := pieces_numberTexts xs
  have hcount : ys.length = options.dimension.toNat := by
    have hlengths := congrArg List.length htexts
    rw [List.length_map, List.length_map] at hlengths
    rw [hlengths, hlength]
  refine ⟨.array (ys.map fun y => .number (.finite y)), ?_, rfl, ?_⟩
  · rw [readKind, hpieces, hys]
    rfl
  · have hvector : Admission.vector path options.dimension
        (.array (ys.map fun y => .number (.finite y))) = .ok ys :=
      Admission.vector_iff.2 ⟨rfl, hcount⟩
    rw [kindText, hvector, ok_bind, htexts]
    rfl

/-- The text of a value of a leaf kind is settled. -/
theorem settled_leaf {kind : Kind} (hleaf : kind.isLeaf = true) (hdates : ofDates kind = false)
    {v : Value} {path text : String} (hwrite : kindText path kind v = .ok text) :
    Settled path kind text := by
  cases kind with
  | string separator caseSensitive => exact ⟨.string text, rfl, rfl, rfl⟩
  | text weight phonetic => exact ⟨.string text, rfl, rfl, rfl⟩
  | number literals =>
    obtain ⟨x, hx, rfl⟩ := map_eq_ok.1 hwrite
    have hadmits := (Admission.number_iff.1 hx).2
    obtain ⟨y, hy, hunits, htext⟩ := readNumber_numberText path x
    have hnumber : Admission.number path literals (.number (.finite y)) = .ok y :=
      Admission.number_iff.2 ⟨rfl, Admission.admits_of_units_eq hunits hadmits⟩
    refine ⟨.number (.finite y), ?_, rfl, ?_⟩
    · rw [readKind, hy]
      rfl
    · rw [kindText, hnumber, ← htext]
      rfl
  | bigInt literals =>
    obtain ⟨i, hi, rfl⟩ := map_eq_ok.1 hwrite
    refine ⟨.bigInt i, ?_, rfl, ?_⟩
    · rw [readKind, readBigInt, Int128.read_text]
      rfl
    · rw [kindText, Admission.bigInt_self hi]
      rfl
  | boolean =>
    obtain ⟨b, hb, rfl⟩ := map_eq_ok.1 hwrite
    exact ⟨.bool b, by cases b <;> rfl, rfl, rfl⟩
  | date => cases hdates
  | point =>
    obtain ⟨p, hp, rfl⟩ := map_eq_ok.1 hwrite
    obtain ⟨q, rfl⟩ := Admission.exists_of_point hp
    obtain ⟨rfl, hvalid⟩ := Admission.point_eq_ok hp
    refine ⟨.point q, ?_, rfl, hwrite⟩
    rw [readKind, readPoint, Coordinates.read?_text_of_isValid hvalid]
    rfl
  | vector options =>
    obtain ⟨xs, hxs, hwrite⟩ := bind_eq_ok.1 hwrite
    obtain rfl := pure_eq_ok.1 hwrite
    exact settled_vector path (Admission.vector_iff.1 hxs).2
  | array element separator => cases hleaf
  | tuple positions => cases hleaf
  | object fields => cases hleaf

/-- The texts of elements are read as elements with the same texts. -/
theorem settled_elementTexts {kind : Scalar} (hdates : ofDates (Kind.ofScalar kind) = false)
    {separator : Char} {vs : List Value} {path : String} {index : Nat} {texts : List String}
    (hwrite : elementTexts path kind separator index vs = .ok texts) :
    ∃ ws, texts.mapM (readScalar path kind) = .ok ws ∧
      elementTexts path kind separator index ws = .ok texts := by
  induction vs generalizing index texts with
  | nil =>
    obtain rfl := Except.ok.inj hwrite
    exact ⟨[], rfl, rfl⟩
  | cons v vs ih =>
    obtain ⟨text, others, ⟨_, htext, hempty, hseparator⟩, hothers, rfl⟩ :=
      elementTexts_cons_eq_ok hwrite
    obtain ⟨w, hread, hnull, hagain⟩ := settled_leaf (Default.isLeaf_ofScalar kind) hdates htext
    obtain ⟨ws, hws, hrewritten⟩ := ih hothers
    refine ⟨w :: ws, ?_, ?_⟩
    · rw [List.mapM_cons, readScalar_eq, hread, ok_bind, hws]
      rfl
    · have helement : elementText path kind separator index w = .ok text := by
        rw [elementText, hnull, scalarText_eq, hagain, if_neg Bool.false_ne_true, ok_bind, hempty,
          if_neg Bool.false_ne_true, if_neg hseparator]
        rfl
      rw [elementTexts, helement, ok_bind, hrewritten]
      rfl

/-- The text of a value of any kind without dates is settled. -/
theorem settled_kindText {kind : Kind} (hdates : ofDates kind = false) {v : Value}
    {path text : String} (hwrite : kindText path kind v = .ok text) : Settled path kind text := by
  cases kind with
  | array element separator =>
    cases element with
    | scalar kind =>
      obtain ⟨vs, texts, rfl, htexts, rfl⟩ := kindText_array_eq_ok hwrite
      obtain ⟨ws, hws, hagain⟩ := settled_elementTexts (ofDates_ofScalar hdates) htexts
      refine ⟨.array ws, ?_, rfl, ?_⟩
      · rw [readKind, pieces_elementTexts htexts, hws]
        rfl
      · rw [kindText, Admission.items, ok_bind, hagain]
        rfl
    | object fields => cases hwrite
  | tuple positions => cases hwrite
  | object fields => cases hwrite
  | _ => exact settled_leaf rfl hdates hwrite

/-! ## Fields -/

/-- The values that are read from the texts of the fields have these texts again. -/
theorem encodeFields_decodeFields {fields : Entries Field} (hordered : fields.Ordered)
    (hdates : ∀ e ∈ fields, ofDates e.2.kind = false) {doc : Document} {texts : Entries String}
    (hwrite : encodeFields doc fields = .ok texts) {hash : Entries String}
    (hagree : Agree fields hash texts) :
    ∃ inside, decodeFields hash fields = .ok inside ∧ inside.keys = fields.keys ∧
      ∀ result, Agree fields result inside → encodeFields result fields = .ok texts := by
  induction fields generalizing texts with
  | nil => exact ⟨[], rfl, rfl, fun _ _ => hwrite⟩
  | cons first rest ih =>
    obtain ⟨name, field⟩ := first
    obtain ⟨hfield, hrest⟩ := List.forall_mem_cons.1 hdates
    obtain ⟨others, hothers, hcases⟩ := encodeFields_cons hwrite
    rcases hcases with ⟨rfl, _⟩ | ⟨v, text, _, _, htext, rfl⟩
    · obtain ⟨habsent, hagree⟩ := hagree.absent hordered (keys_encodeFields hothers)
      obtain ⟨inside, hinside, hkeys, hagain⟩ := ih hordered.tail hrest hothers hagree
      refine ⟨(name, .null) :: inside, ?_, congrArg (name :: ·) hkeys, ?_⟩
      · rw [decodeFields, habsent]
        dsimp only
        rw [hinside]
        rfl
      · intro result hresult
        obtain ⟨hnull, hresult⟩ := hresult.present hordered
        rw [encodeFields, effective, hnull, hagain result hresult]
        rfl
    · obtain ⟨hpresent, hagree⟩ := hagree.present hordered
      obtain ⟨inside, hinside, hkeys, hagain⟩ := ih hordered.tail hrest hothers hagree
      obtain ⟨w, hread, hnull, hsettled⟩ := settled_kindText hfield htext
      refine ⟨(name, w) :: inside, ?_, congrArg (name :: ·) hkeys, ?_⟩
      · rw [decodeFields, hpresent]
        dsimp only
        rw [hread, ok_bind, hinside]
        rfl
      · intro result hresult
        obtain ⟨hvalue, hresult⟩ := hresult.present hordered
        have hkind : encodeKind name field.kind w = .ok (some text) := by
          rw [encodeKind, hnull, hsettled]
          rfl
        rw [encodeFields, effective, hvalue]
        dsimp only
        rw [hkind, ok_bind, hagain result hresult]
        rfl

/-! ## What no field describes -/

/-- What no field describes is written under its own keys, in their order. -/
theorem keys_encodeUndescribed {others : Document} {texts : Entries String}
    (hwrite : encodeUndescribed others = .ok texts) : texts.keys.Sublist others.keys := by
  rw [keys_encodeUndescribed_eq hwrite]
  exact (List.filter_sublist).map _

/-- Texts that no field describes are written as they are. -/
theorem encodeUndescribed_texts (texts : Entries String) :
    encodeUndescribed (texts.mapValues Value.string) = .ok texts := by
  induction texts with
  | nil => rfl
  | cons first rest ih =>
    obtain ⟨name, text⟩ := first
    show (undescribedText name (.string text) >>= fun text =>
      encodeUndescribed (Entries.mapValues Value.string rest) >>= fun texts => _) = _
    rw [ih]
    rfl

/-- A hash has texts for fields and texts at other names that no link has. -/
theorem level_encodeHash {schema : Schema} (hordered : schema.fields.Ordered) {doc : Document}
    {hash : Entries String} (hwrite : schema.encodeHash doc = .ok hash) :
    hash.Ordered ∧ (∀ e ∈ undescribed schema.fields hash, schema.isLink e.1 = false) ∧
      encodeFields doc schema.fields = .ok (described schema.fields hash) := by
  obtain ⟨texts, htexts, hwrite⟩ := bind_eq_ok.1 hwrite
  obtain ⟨more, hmore, hwrite⟩ := bind_eq_ok.1 hwrite
  obtain rfl := pure_eq_ok.1 hwrite
  have hkeys := keys_encodeFields htexts
  have htextsOrdered : texts.Ordered := hordered.of_keys hkeys
  have hhash : (texts.insertAll more).Ordered := htextsOrdered.insertAll more
  have hnames : ∀ name ∈ more.keys,
      schema.fields.contains name = false ∧ schema.isLink name = false := by
    intro name hname
    obtain ⟨e, he, rfl⟩ := List.mem_map.1 ((keys_encodeUndescribed hmore).subset hname)
    obtain ⟨hmem, hlink⟩ := List.mem_filter.1 he
    exact ⟨(mem_undescribed.1 hmem).2, by simpa using hlink⟩
  refine ⟨hhash, ?_, ?_⟩
  · intro e he
    obtain ⟨hmem, hfield⟩ := mem_undescribed.1 he
    rcases Entries.key_mem_insertAll (List.mem_map_of_mem hmem) with hmore | htext
    · exact (hnames e.1 hmore).2
    · have hcontains := Entries.contains_of_mem_keys (hkeys.subset htext)
      rw [hfield] at hcontains
      cases hcontains
  · -- no other text lies at the name of a field, so the described part is what the fields gave
    have heq : described schema.fields (texts.insertAll more) = texts := by
      have hdescribed := (Level.of_ordered hordered hhash).inside_ordered
      refine hdescribed.ext htextsOrdered ?_
      intro name
      rw [get?_described]
      split
      · rename_i hfield
        refine Entries.get?_insertAll_of_absent texts (Entries.get?_eq_none_iff.2 ?_)
        intro e he hname
        have hnone := (hnames e.1 (List.mem_map_of_mem he)).1
        rw [hname, hfield] at hnone
        cases hnone
      · rename_i hfield
        refine (Entries.get?_eq_none_iff.2 ?_).symm
        intro e he hname
        refine hfield ?_
        rw [← hname]
        exact Entries.contains_of_mem_keys (hkeys.subset (List.mem_map_of_mem he))
    rw [heq]
    exact htexts

end DocumentSchema.Hash

namespace DocumentSchema

/-- What was read from the hash of a document is written as this hash again, whatever values the
document has, if the schema is canonical and has no dates. -/
theorem Schema.encodeHash_decodeHash {schema : Schema} (hschema : schema.IsCanonical)
    (hdates : ∀ e ∈ schema.fields, Hash.ofDates e.2.kind = false) {doc : Document}
    {hash : Entries String} (hwrite : schema.encodeHash doc = .ok hash) :
    ∃ result, schema.decodeHash hash = .ok result ∧ schema.encodeHash result = .ok hash := by
  have hordered := hschema.sound.ordered
  obtain ⟨hhash, hlinks, hfields⟩ := Hash.level_encodeHash hordered hwrite
  have hundescribed := ordered_undescribed hhash schema.fields
  have hagree : Agree schema.fields hash (described schema.fields hash) := by
    intro name hname
    rw [get?_described, if_pos hname]
  obtain ⟨inside, hinside, hkeys, hagain⟩ :=
    Hash.encodeFields_decodeFields hordered hdates hfields hagree
  have hlevel : Level schema.fields inside
      ((undescribed schema.fields hash).mapValues Value.string) := by
    refine ⟨hordered, hkeys ▸ List.Sublist.refl _, hundescribed.mapValues _, ?_⟩
    intro e he
    obtain ⟨text, htext, rfl⟩ := List.mem_map.1 he
    exact (mem_undescribed.1 htext).2
  refine ⟨Entries.insertAll inside ((undescribed schema.fields hash).mapValues Value.string),
    ?_, ?_⟩
  · rw [Schema.decodeHash, hinside]
    rfl
  · have hothers : (((undescribed schema.fields hash).mapValues Value.string).filter fun e =>
        !schema.isLink e.1) = (undescribed schema.fields hash).mapValues Value.string := by
      refine List.filter_eq_self.2 ?_
      intro e he
      obtain ⟨text, htext, rfl⟩ := List.mem_map.1 he
      simp [hlinks text htext]
    rw [Schema.encodeHash, hagain _ hlevel.agree, Outcome.ok_bind, hlevel.undescribed_eq]
    dsimp only
    rw [hothers, Hash.encodeUndescribed_texts, Outcome.ok_bind, insertAll_described hordered hhash]
    rfl

/-! ## A ledger -/

/-- A number, a text, an integer, an array of texts, a reference, and a text with a default. -/
def ledgerDeclarations : Declarations :=
  [("amount", .shorthand "number"), ("code", .shorthand "string"), ("count", .shorthand "bigint"),
    ("marks", .full { kind := "array", separator := some ";" } (some (.kind "string")) none none),
    ("owner", .full { kind := "reference", target := some "Person" } none none none),
    ("state", .full { kind := "string", default := some (.string "open") } none none none)]

/-- The schema that a ledger is declared with. -/
def ledgerSchema : Schema where
  fields := [
    ("amount", .ofKind (.number none)),
    ("code", .ofKind (.string ',' false)),
    ("count", .ofKind (.bigInt none)),
    ("marks", .ofKind (.array (.scalar .string) ';')),
    ("state", .mk (.string ',' false) false false true (some (.string "open")))]
  references := [("owner", ⟨.named "Person", false⟩)]
  relations := []
  warnings := []

/-- A ledger in which no value is of the type of its field: a negative zero, a number for a text, a
number for an integer, a truth value and no number among texts. -/
def ledger : Document :=
  [("amount", .number (.finite (.zero true))), ("code", .number (Floating.ofInt .binary64 7)),
    ("count", .number (Floating.ofInt .binary64 3)),
    ("marks", .array [.bool true, .number (.nan false)]), ("owner", .array [.null]),
    ("seen", .bool true)]

/-- The hash of the ledger, in which every value has the text of its field. -/
def ledgerHash : Entries String :=
  [("amount", "0"), ("code", "7"), ("count", "3"), ("marks", "true;NaN"), ("seen", "1"),
    ("state", "open")]

/-- The schema of ledgers comes from its declarations. -/
theorem ledgerSchema_isCanonical : ledgerSchema.IsCanonical := by
  refine ⟨ledgerDeclarations, ⟨by decide, ?_⟩, rfl⟩
  simp [ledgerDeclarations, declarationsSatisfy, Declaration.Satisfies, declarationsSatisfy?,
    elementsSatisfy?, Elements.Satisfy, Attributes.WellFormed, Json.WellFormed]

/-- A ledger with values of other types is written alike after it was read. -/
theorem Schema.encodeHash_decodeHash_ledger :
    ledgerSchema.IsCanonical ∧ (∀ e ∈ ledgerSchema.fields, Hash.ofDates e.2.kind = false) ∧
      ledgerSchema.encodeHash ledger = .ok ledgerHash ∧
      ∃ result, ledgerSchema.decodeHash ledgerHash = .ok result ∧
        ledgerSchema.encodeHash result = .ok ledgerHash := by
  have hdates : ∀ e ∈ ledgerSchema.fields, Hash.ofDates e.2.kind = false := by
    simp [ledgerSchema, Hash.ofDates, Field.kind, Field.ofKind]
  have hwrite : ledgerSchema.encodeHash ledger = .ok ledgerHash := by decide +kernel
  exact ⟨ledgerSchema_isCanonical, hdates, hwrite,
    Schema.encodeHash_decodeHash ledgerSchema_isCanonical hdates hwrite⟩

end DocumentSchema
