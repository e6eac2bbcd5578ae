import DocumentSchema.Proofs.Codec.Agreement
import DocumentSchema.Proofs.Codec.Settled

/-!
# Dates in hashes

A field of dates, or of arrays of dates, is written as the seconds of its instants and read from them
again. Writing refuses only elements whose text holds the separator. What is read for an instant has
the milliseconds that come back from its seconds, so an instant of whole milliseconds is read as
itself exactly if its milliseconds do not drift, whatever else is in the document
(`Schema.instants_read_iff`).
-/

set_option autoImplicit false

namespace DocumentSchema

open Outcome

/-- The instants that a value of a field of dates denotes, in whatever notation. -/
inductive Kind.DenotesInstants : Kind → Value → List Instant → Prop
  | date {v : Value} {t : Instant} (h : v.toInstant? = some t) : DenotesInstants .date v [t]
  | dates {separator : Char} {vs : List Value} {ts : List Instant}
      (h : List.Forall₂ (fun v t => v.toInstant? = some t) vs ts) :
      DenotesInstants (.array (.scalar .date) separator) (.array vs) ts

/-- A date, or an array of dates, of instants. -/
inductive Kind.HoldsInstants : Kind → Value → List Instant → Prop
  | date (t : Instant) : HoldsInstants .date (.date t) [t]
  | dates (separator : Char) (ts : List Instant) :
      HoldsInstants (.array (.scalar .date) separator) (.array (ts.map .date)) ts

/-- A value of a leaf field that denotes no instant in a leap second at the end of time, if the field
has dates. -/
def leafInRange : Kind → Value → Prop
  | .date, v => ∀ t, v.toInstant? = some t → t.MillisInRange
  | _, _ => True

/-- What is read from the seconds of an instant. -/
def Instant.IsReadAs (t u : Instant) : Prop := ofMillis? (Hash.rereadMillis t.millis) = some u

/-- The instant that is read has the milliseconds that come back. -/
theorem Instant.IsReadAs.millis {t u : Instant} (h : t.IsReadAs u) :
    u.millis = Hash.rereadMillis t.millis := by
  obtain ⟨hmin, hmax⟩ := ofMillis?_range h
  obtain ⟨u', hu', hmillis⟩ := exists_ofMillis? hmin hmax
  obtain rfl := Option.some.inj (hu'.symm.trans h)
  exact hmillis

/-- An instant of whole milliseconds is read as itself exactly if they do not drift. -/
theorem Instant.IsReadAs.eq_iff {t u : Instant} (h : t.IsReadAs u) (hleap : t.nanos < nanosPerSecond)
    (hwhole : t.nanos % nanosPerMilli = 0) : u = t ↔ ¬Hash.Drifts t.millis.natAbs := by
  constructor
  · rintro rfl hdrifts
    have habs := Hash.natAbs_rereadMillis u.millis
    rw [← h.millis, if_pos hdrifts] at habs
    omega
  · intro hkept
    have hsame := ofMillis?_millis hleap hwhole
    unfold IsReadAs at h
    rw [Hash.rereadMillis_of_kept hkept, hsame] at h
    exact (Option.some.inj h).symm

/-- A value that denotes instants is not null. -/
theorem Kind.DenotesInstants.isNull {kind : Kind} {v : Value} {ts : List Instant}
    (h : kind.DenotesInstants v ts) : v.isNull = false := by
  cases h with
  | date h => cases v <;> first | rfl | cases h
  | dates h => rfl

/-- All instants of a value in range are in range. -/
theorem Kind.DenotesInstants.inRange {kind : Kind} {v : Value} {ts : List Instant}
    (h : kind.DenotesInstants v ts) (hrange : eachScalar leafInRange kind v) :
    ∀ t ∈ ts, t.MillisInRange := by
  cases h with
  | date h =>
    intro t ht
    obtain rfl := List.mem_singleton.1 ht
    exact hrange _ h
  | @dates separator vs ts h =>
    have hitems : ∀ w ∈ vs, ∀ t, w.toInstant? = some t → t.MillisInRange := hrange vs rfl
    induction h with
    | nil => simp
    | @cons v t vs ts hv hvs ih =>
      obtain ⟨hfirst, hlater⟩ := List.forall_mem_cons.1 hitems
      refine List.forall_mem_cons.2 ⟨hfirst t hv, ih ?_ hlater⟩
      rintro _ ⟨⟩
      exact hlater

namespace Hash

/-! ## Texts of dates -/

/-- The seconds of an instant have a text that is not empty. -/
theorem isEmpty_secondsText (t : Instant) : (secondsText t.millis).isEmpty = false := by
  obtain ⟨_, x, _, _, _, hx⟩ := Floating.exists_divNat t.natAbs_millis_lt
  have htext : secondsText t.millis = numberText x := by
    rw [secondsText, hx]
    rfl
  rw [htext]
  exact isEmpty_numberText x

/-- A date is written as the seconds of the instant that it denotes. -/
theorem scalarText_date {v : Value} {t : Instant} (h : v.toInstant? = some t) (path : String) :
    scalarText path .date v = .ok (secondsText t.millis) := by
  show (Admission.date path v).map _ = _
  rw [Admission.date_iff.2 h]
  rfl

/-- Elements that are written as dates denote instants. -/
theorem exists_instants_of_elementTexts {separator : Char} {vs : List Value} {path : String}
    {index : Nat} {texts : List String}
    (h : elementTexts path .date separator index vs = .ok texts) :
    ∃ ts, List.Forall₂ (fun v t => v.toInstant? = some t) vs ts := by
  induction vs generalizing index texts with
  | nil => exact ⟨[], .nil⟩
  | cons v vs ih =>
    obtain ⟨text, others, ⟨_, htext, _⟩, hothers, _⟩ := elementTexts_cons_eq_ok h
    obtain ⟨t, ht, _⟩ := map_eq_ok.1 htext
    obtain ⟨ts, hts⟩ := ih hothers
    exact ⟨t :: ts, .cons (Admission.date_iff.1 ht) hts⟩

/-- The texts of dates are their seconds, and are refused if one of them holds the separator. -/
theorem elementTexts_instants_iff {separator : Char} {vs : List Value} {ts : List Instant}
    (h : List.Forall₂ (fun v t => v.toInstant? = some t) vs ts) {path : String} {index : Nat}
    {texts : List String} :
    elementTexts path .date separator index vs = .ok texts ↔
      ts.map (fun t => secondsText t.millis) = texts ∧
        ∀ t ∈ ts, separator ∉ (secondsText t.millis).toList := by
  induction h generalizing index texts with
  | nil => simp [elementTexts]
  | @cons v t vs ts hv hvs ih =>
    have hnull := (Kind.DenotesInstants.date hv).isNull
    have helement : elementText path .date separator index v =
        if separator ∈ (secondsText t.millis).toList then
          .error (.separatorInValue path (secondsText t.millis) separator)
        else .ok (secondsText t.millis) := by
      rw [elementText, hnull, if_neg Bool.false_ne_true, scalarText_date hv, ok_bind,
        isEmpty_secondsText, if_neg Bool.false_ne_true]
      rfl
    rw [elementTexts, helement, List.forall_mem_cons, List.map_cons]
    by_cases hpiece : separator ∈ (secondsText t.millis).toList
    · rw [if_pos hpiece]
      refine iff_of_false ?_ fun hkept => hkept.2.1 hpiece
      rintro ⟨⟩
    · rw [if_neg hpiece, ok_bind, bind_eq_ok]
      constructor
      · rintro ⟨others, hothers, htexts⟩
        obtain ⟨rfl, hlater⟩ := ih.1 hothers
        exact ⟨pure_eq_ok.1 htexts, hpiece, hlater⟩
      · rintro ⟨htexts, _, hlater⟩
        exact ⟨_, ih.2 ⟨rfl, hlater⟩, pure_eq_ok.2 htexts⟩

/-- A value of a field of dates is written unless an element holds the separator. -/
theorem encodeKind_instants_iff {kind : Kind} {v : Value} {ts : List Instant}
    (h : kind.DenotesInstants v ts) (path : String) :
    (∃ text, encodeKind path kind v = .ok (some text)) ↔
      ∀ separator, kind = .array (.scalar .date) separator →
        ∀ t ∈ ts, separator ∉ (secondsText t.millis).toList := by
  have hkind : (∃ text, encodeKind path kind v = .ok (some text)) ↔
      ∃ text, kindText path kind v = .ok text := by
    rw [encodeKind, h.isNull, if_neg Bool.false_ne_true]
    constructor
    · rintro ⟨text, htext⟩
      obtain ⟨text, htext, _⟩ := map_eq_ok.1 htext
      exact ⟨text, htext⟩
    · rintro ⟨text, htext⟩
      exact ⟨text, by rw [htext]; rfl⟩
  rw [hkind]
  cases h with
  | date h =>
    refine iff_of_true ⟨_, scalarText_date h path⟩ ?_
    rintro _ ⟨⟩
  | @dates separator vs ts h =>
    constructor
    · rintro ⟨text, htext⟩ _ ⟨⟩
      obtain ⟨_, texts, ⟨⟩, htexts, _⟩ := kindText_array_eq_ok htext
      exact ((elementTexts_instants_iff h).1 htexts).2
    · intro hpieces
      have htexts : elementTexts path .date separator 0 vs =
          .ok (ts.map fun t => secondsText t.millis) :=
        (elementTexts_instants_iff h).2 ⟨rfl, hpieces separator rfl⟩
      refine ⟨Text.joined separator (ts.map fun t => secondsText t.millis), ?_⟩
      rw [kindText, Admission.items, ok_bind, htexts]
      rfl

/-- A value that is written for a field of dates denotes instants. -/
theorem exists_instants_of_kindText {kind : Kind} (hdates : ofDates kind = true) {v : Value}
    {path text : String} (h : kindText path kind v = .ok text) :
    ∃ ts, kind.DenotesInstants v ts := by
  cases kind with
  | date =>
    obtain ⟨t, ht, _⟩ := map_eq_ok.1 h
    exact ⟨[t], .date (Admission.date_iff.1 ht)⟩
  | array element separator =>
    cases element with
    | scalar scalar =>
      obtain rfl : scalar = .date := by
        cases scalar <;> first | rfl | cases hdates
      obtain ⟨vs, texts, rfl, htexts, _⟩ := kindText_array_eq_ok h
      obtain ⟨ts, hts⟩ := exists_instants_of_elementTexts htexts
      exact ⟨ts, .dates hts⟩
    | object fields => cases hdates
  | _ => cases hdates

/-! ## Reading dates -/

/-- A date is read from its seconds. -/
theorem readScalar_date {t u : Instant} (h : t.IsReadAs u) (path : String) :
    readScalar path .date (secondsText t.millis) = .ok (.date u) := by
  rw [readScalar, readDate_secondsText t.natAbs_millis_lt_pow h]
  rfl

/-- Dates in range are read from their seconds one by one. -/
theorem mapM_readScalar_dates {ts : List Instant} (hrange : ∀ t ∈ ts, t.MillisInRange)
    (path : String) :
    ∃ us, (ts.map fun t => secondsText t.millis).mapM (readScalar path .date) =
        .ok (us.map .date) ∧ List.Forall₂ Instant.IsReadAs ts us := by
  induction ts with
  | nil => exact ⟨[], rfl, .nil⟩
  | cons t ts ih =>
    obtain ⟨hfirst, hlater⟩ := List.forall_mem_cons.1 hrange
    obtain ⟨u, hu, _⟩ := hfirst.exists_reread
    obtain ⟨us, hus, hall⟩ := ih hlater
    refine ⟨u :: us, ?_, .cons hu hall⟩
    rw [List.map_cons, List.mapM_cons, readScalar_date hu, ok_bind, hus]
    rfl

/-- What is written for a value of a field of dates is read as dates. -/
theorem exists_readKind_instants {kind : Kind} {v : Value} {ts : List Instant}
    (h : kind.DenotesInstants v ts) (hrange : ∀ t ∈ ts, t.MillisInRange) {path text : String}
    (hwrite : kindText path kind v = .ok text) (below : String) :
    ∃ w us, readKind below kind text = .ok w ∧ kind.HoldsInstants w us ∧
      List.Forall₂ Instant.IsReadAs ts us := by
  cases h with
  | @date v t h =>
    have htext : text = secondsText t.millis :=
      Except.ok.inj (hwrite.symm.trans (scalarText_date h path))
    obtain ⟨u, hu, _⟩ := (hrange t List.mem_cons_self).exists_reread
    refine ⟨.date u, [u], ?_, .date u, .cons hu .nil⟩
    rw [htext]
    exact readScalar_date hu below
  | @dates separator vs ts h =>
    obtain ⟨_, texts, ⟨⟩, htexts, rfl⟩ := kindText_array_eq_ok hwrite
    obtain ⟨rfl, _⟩ := (elementTexts_instants_iff h).1 htexts
    obtain ⟨us, hus, hall⟩ := mapM_readScalar_dates hrange below
    refine ⟨.array (us.map .date), us, ?_, .dates separator us, hall⟩
    rw [readKind, pieces_elementTexts htexts, hus]
    rfl

/-! ## Fields -/

/-- What is written for a field: nothing for a null, otherwise the text of its value. -/
theorem get?_encodeFields {fields : Entries Field} (hordered : fields.Ordered) {doc : Document}
    {texts : Entries String} (hwrite : encodeFields doc fields = .ok texts) {name : String}
    {field : Field} (hfield : fields.get? name = some field) :
    (effective doc name field.default).getD .null = .null ∧ texts.get? name = none ∨
      ∃ v text, effective doc name field.default = some v ∧ v ≠ .null ∧
        kindText name field.kind v = .ok text ∧ texts.get? name = some text := by
  induction fields generalizing texts with
  | nil => cases hfield
  | cons first rest ih =>
    obtain ⟨key, first⟩ := first
    obtain ⟨others, hothers, hcases⟩ := encodeFields_cons hwrite
    by_cases hkey : key = name
    · subst hkey
      obtain rfl : first = field := by simpa [Entries.get?] using hfield
      rcases hcases with ⟨rfl, hnull⟩ | ⟨v, text, heffective, hne, htext, rfl⟩
      · have habsent : texts.get? key = none := by
          have hkeys := keys_encodeFields hothers
          refine Entries.get?_eq_none_iff.2 fun e he heq => ?_
          have hcontains := contains_of_sublist hkeys e he
          rw [heq, Entries.contains, hordered.get?_tail] at hcontains
          cases hcontains
        exact .inl ⟨hnull, habsent⟩
      · exact .inr ⟨v, text, heffective, hne, htext, by simp [Entries.get?]⟩
    · have hlater : Entries.get? rest name = some field := by
        simpa [Entries.get?, hkey] using hfield
      rcases hcases with ⟨rfl, _⟩ | ⟨v, text, _, _, _, rfl⟩
      · exact ih hordered.tail hothers hlater
      · have hskip : Entries.get? ((key, text) :: others) name = others.get? name := by
          rw [Entries.get?, if_neg hkey]
        rw [hskip]
        exact ih hordered.tail hothers hlater

/-- What a hash that was written has for a field. -/
theorem get?_encodeHash {schema : Schema} (hordered : schema.fields.Ordered) {doc : Document}
    {hash : Entries String} (hwrite : schema.encodeHash doc = .ok hash) {name : String}
    {field : Field} (hfield : schema.fields.get? name = some field) :
    (effective doc name field.default).getD .null = .null ∧ hash.get? name = none ∨
      ∃ v text, effective doc name field.default = some v ∧ v ≠ .null ∧
        kindText name field.kind v = .ok text ∧ hash.get? name = some text := by
  obtain ⟨_, _, hfields⟩ := level_encodeHash hordered hwrite
  have hcontains : schema.fields.contains name = true :=
    Entries.contains_of_mem_keys (List.mem_map_of_mem (Entries.mem_of_get? hfield))
  have hsame : (described schema.fields hash).get? name = hash.get? name := by
    rw [get?_described, if_pos hcontains]
  rw [← hsame]
  exact get?_encodeFields hordered hfields hfield

/-- If each field can be read, all of them are, each of them as it is by itself. -/
theorem exists_decodeFields {fields : Entries Field} {hash : Entries String}
    (h : ∀ e ∈ fields, ∃ v, Agreement.readText hash e.1 e.2.kind = .ok v) :
    ∃ inside, decodeFields hash fields = .ok inside ∧
      ∀ name field v, fields.get? name = some field →
        Agreement.readText hash name field.kind = .ok v → inside.get? name = some v := by
  induction fields with
  | nil => exact ⟨[], rfl, nofun⟩
  | cons first rest ih =>
    obtain ⟨key, first⟩ := first
    obtain ⟨⟨v, hv⟩, hlater⟩ := List.forall_mem_cons.1 h
    obtain ⟨inside, hinside, hvalues⟩ := ih hlater
    refine ⟨(key, v) :: inside, ?_, ?_⟩
    · rw [Agreement.decodeFields_hash, hv, ok_bind, hinside]
      rfl
    · intro name field w hfield hw
      rw [Entries.get?] at hfield ⊢
      by_cases hkey : key = name
      · subst hkey
        rw [if_pos rfl] at hfield ⊢
        obtain rfl := Option.some.inj hfield
        exact congrArg some (Except.ok.inj (hv.symm.trans hw))
      · rw [if_neg hkey] at hfield ⊢
        exact hvalues name field w hfield hw

/-- Each field of a hash that was written can be read. -/
theorem exists_readText {schema : Schema} (hordered : schema.fields.Ordered) {doc : Document}
    (hrange : eachField leafInRange schema.fields doc) {hash : Entries String}
    (hwrite : schema.encodeHash doc = .ok hash) :
    ∀ e ∈ schema.fields, ∃ v, Agreement.readText hash e.1 e.2.kind = .ok v := by
  rintro ⟨name, field⟩ he
  rw [Agreement.readText]
  rcases get?_encodeHash hordered hwrite (hordered.distinct.get?_of_mem he) with
    ⟨_, habsent⟩ | ⟨v, text, heffective, _, htext, hpresent⟩
  · rw [habsent]
    exact ⟨.null, rfl⟩
  · rw [hpresent]
    cases hdates : ofDates field.kind with
    | false =>
      obtain ⟨w, hw, _⟩ := settled_kindText hdates htext
      exact ⟨w, hw⟩
    | true =>
      obtain ⟨ts, hts⟩ := exists_instants_of_kindText hdates htext
      obtain ⟨w, us, hw, _⟩ := exists_readKind_instants hts
        (hts.inRange (hrange _ he v heffective)) htext name
      exact ⟨w, hw⟩

end Hash

/-- In a document whose dates are all in range, a value of a field of dates is written unless the
text of an element holds the separator. Whenever the whole document is written, it is read again, the
field has dates, and each instant of whole milliseconds is read as itself exactly if its milliseconds
do not drift; otherwise the next millisecond away from zero is read. -/
theorem Schema.instants_read_iff {schema : Schema} (hschema : schema.IsCanonical) {doc : Document}
    (hrange : eachField leafInRange schema.fields doc) {name : String} {field : Field} {v : Value}
    {ts : List Instant} (hfield : schema.fields.get? name = some field)
    (heffective : effective doc name field.default = some v)
    (hinstants : field.kind.DenotesInstants v ts)
    (hwhole : ∀ t ∈ ts, t.nanos < Instant.nanosPerSecond ∧ t.nanos % Instant.nanosPerMilli = 0) :
    ((∃ text, Hash.encodeKind name field.kind v = .ok (some text)) ↔
      ∀ separator, field.kind = .array (.scalar .date) separator →
        ∀ t ∈ ts, separator ∉ (Hash.secondsText t.millis).toList) ∧
    ∀ hash, schema.encodeHash doc = .ok hash →
      ∃ result w us, schema.decodeHash hash = .ok result ∧ result.get? name = some w ∧
        field.kind.HoldsInstants w us ∧
        List.Forall₂ (fun t u => u.millis = Hash.rereadMillis t.millis ∧
          (u = t ↔ ¬Hash.Drifts t.millis.natAbs)) ts us := by
  refine ⟨Hash.encodeKind_instants_iff hinstants name, ?_⟩
  intro hash hwrite
  have hordered := hschema.sound.ordered
  have hmem := Entries.mem_of_get? hfield
  obtain ⟨inside, hinside, hvalues⟩ :=
    Hash.exists_decodeFields (Hash.exists_readText hordered hrange hwrite)
  rcases Hash.get?_encodeHash hordered hwrite hfield with
    ⟨hnull, _⟩ | ⟨v', text, hv', _, htext, hpresent⟩
  · -- a value that denotes instants is no null
    rw [heffective, Option.getD_some] at hnull
    have hvalue := hinstants.isNull
    rw [hnull] at hvalue
    cases hvalue
  · obtain rfl := Option.some.inj (hv'.symm.trans heffective)
    obtain ⟨w, us, hread, hholds, hall⟩ := Hash.exists_readKind_instants hinstants
      (hinstants.inRange (hrange _ hmem _ heffective)) htext name
    have htextRead : Agreement.readText hash name field.kind = .ok w := by
      rw [Agreement.readText, hpresent]
      exact hread
    -- the names that are not fields are put back last, and the name of a field is none of them
    have hothers : ((undescribed schema.fields hash).mapValues Value.string).get? name = none := by
      rw [Entries.get?_mapValues, get?_undescribed,
        if_pos (Entries.contains_of_mem_keys (List.mem_map_of_mem hmem))]
      rfl
    refine ⟨inside.insertAll ((undescribed schema.fields hash).mapValues Value.string), w, us,
      ?_, ?_, hholds, ?_⟩
    · rw [Schema.decodeHash, hinside]
      rfl
    · rw [Entries.get?_insertAll_of_absent inside hothers]
      exact hvalues name field w hfield htextRead
    · refine ((List.forall₂_and_left ts us).2 ⟨hwhole, hall⟩).imp ?_
      rintro t u ⟨⟨hleap, hmillis⟩, hu⟩
      exact ⟨hu.millis, hu.eq_iff hleap hmillis⟩

/-! ### Stamps far from 1970 -/

/-- A date, and an array of dates. -/
def stampDeclarations : Declarations :=
  [("stamps", .full { kind := "array", separator := some ";" } (some (.kind "date")) none none),
    ("when", .shorthand "date")]

/-- The schema that stamps are declared with. -/
def stampSchema : Schema where
  fields := [("stamps", .ofKind (.array (.scalar .date) ';')), ("when", .ofKind .date)]
  references := []
  relations := []
  warnings := []

/-- The schema of stamps comes from its declarations. -/
theorem stampSchema_isCanonical : stampSchema.IsCanonical := by
  refine ⟨stampDeclarations, ⟨by decide, ?_⟩, rfl⟩
  simp [stampDeclarations, declarationsSatisfy, Declaration.Satisfies, declarationsSatisfy?,
    elementsSatisfy?, Elements.Satisfy, Attributes.WellFormed]

/-- In the year 141338, a millisecond that comes back from its seconds. -/
def keptStamp : Instant := ⟨4398046511104, 20000000, by decide⟩

/-- The millisecond after it, which does not. -/
def driftingStamp : Instant := ⟨4398046511104, 21000000, by decide⟩

/-- A document with an instant that is read back and one that is not. -/
def stamped : Document := [("stamps", .array [.date keptStamp, .date driftingStamp])]

/-- Of two stamps in an array the first is read as it was written, the second is not. -/
theorem Schema.instants_read_iff_stamped :
    stampSchema.IsCanonical ∧ eachField leafInRange stampSchema.fields stamped ∧
      stampSchema.encodeHash stamped =
        .ok [("stamps", "4398046511104.02;4398046511104.021")] ∧
      ∃ result u, stampSchema.decodeHash [("stamps", "4398046511104.02;4398046511104.021")] =
          .ok result ∧
        result.get? "stamps" = some (.array [.date keptStamp, .date u]) ∧ u ≠ driftingStamp := by
  have hrange : eachField leafInRange stampSchema.fields stamped := by
    intro e he v hv
    simp only [stampSchema, List.mem_cons, List.not_mem_nil, or_false] at he
    rcases he with rfl | rfl
    · rintro vs rfl w hw t ht
      have hitems := Value.array.inj (Option.some.inj hv)
      rw [← hitems] at hw
      simp only [List.mem_cons, List.not_mem_nil, or_false] at hw
      rcases hw with rfl | rfl
      · rw [← Option.some.inj ht]
        exact .inr (by decide)
      · rw [← Option.some.inj ht]
        exact .inr (by decide)
    · cases hv
  have hwrite : stampSchema.encodeHash stamped =
      .ok [("stamps", "4398046511104.02;4398046511104.021")] := by decide +kernel
  have hwhole : ∀ t ∈ [keptStamp, driftingStamp],
      t.nanos < Instant.nanosPerSecond ∧ t.nanos % Instant.nanosPerMilli = 0 := by decide
  obtain ⟨result, w, us, hread, hvalue, hholds, hall⟩ :=
    (@Schema.instants_read_iff _ stampSchema_isCanonical _ hrange "stamps" _ _ _ rfl rfl
      (.dates (.cons rfl (.cons rfl .nil))) hwhole).2 _ hwrite
  cases hholds with
  | dates separator us =>
    obtain ⟨u, _, ⟨_, hfirst⟩, hlater, rfl⟩ := List.forall₂_cons_left_iff.1 hall
    obtain ⟨u', _, ⟨_, hsecond⟩, hnil, rfl⟩ := List.forall₂_cons_left_iff.1 hlater
    obtain rfl := List.forall₂_nil_left_iff.1 hnil
    obtain rfl := hfirst.2 (by decide)
    refine ⟨stampSchema_isCanonical, hrange, hwrite, result, u', hread, hvalue, ?_⟩
    intro hsame
    exact absurd (hsecond.1 hsame) (by decide)

/-- The drifting stamp is written as its seconds, and the next millisecond is read from them. -/
theorem Schema.instant_misread_stamp :
    ¬ ∀ (schema : Schema) (doc : Document) (name : String) (field : Field) (t : Instant)
        (hash : Entries String) (result : Document),
      schema.IsCanonical → schema.fields.get? name = some field → field.kind = .date →
      doc.get? name = some (.date t) → t.nanos < Instant.nanosPerSecond →
      t.nanos % Instant.nanosPerMilli = 0 → schema.encodeHash doc = .ok hash →
      schema.decodeHash hash = .ok result → result.get? name = some (.date t) := by
  intro hall
  have hwrite : stampSchema.encodeHash [("when", .date driftingStamp)] =
      .ok [("when", "4398046511104.021")] := by decide +kernel
  have hdate : Hash.readDate "when" "4398046511104.021" =
      .ok ⟨4398046511104, 22000000, by decide⟩ := by decide +kernel
  have hread : stampSchema.decodeHash [("when", "4398046511104.021")] =
      .ok [("stamps", .null), ("when", .date ⟨4398046511104, 22000000, by decide⟩)] := by
    show ((((Hash.readDate "when" "4398046511104.021").map Value.date >>= fun v =>
      pure [("when", v)]) >>= fun vs => pure (("stamps", Value.null) :: vs)) >>= fun vs =>
        pure (Entries.insertAll vs [])) = _
    rw [hdate]
    rfl
  have hsame := hall _ _ "when" _ driftingStamp _ _ stampSchema_isCanonical rfl rfl rfl (by decide)
    (by decide) hwrite hread
  have hinstant := Value.date.inj (Option.some.inj hsame)
  exact absurd hinstant (by decide)

end DocumentSchema
