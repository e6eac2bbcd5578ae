import DocumentSchema.Proofs.Codec.Seconds
import DocumentSchema.Proofs.Codec.Tree
import DocumentSchema.Proofs.Query.Compilation
import DocumentSchema.Proofs.Query.Intervals

/-!
# Bounds and stored numbers

A clause on a number or a date finds what is stored only if its bounds and the stored numbers are in
the same unit. `Place.Stores` says what is stored for one value at a place, in either form, and
`Session.range_eq_iff` when the range of a value holds what is stored for it: always, except for
dates in a hash, which are stored in seconds and looked for in milliseconds. Seconds and
milliseconds of an instant agree at the start of 1970 only, because rounding a quotient never brings
it back up to the dividend (`exists_secondsText`).
-/

set_option autoImplicit false

namespace DocumentSchema

/-! ## Seconds -/

/-- The text of seconds is that of a number, which has the value of the milliseconds only if both
are zero. -/
theorem Hash.exists_secondsText {m : Int} (hm : m.natAbs < 9007199254740992) :
    ∃ x : Finite64, Hash.secondsText m = Floating.token (.finite x) ∧
      (x.magnitude.toRat = m.natAbs ↔ m = 0) := by
  obtain ⟨r, x, hquotient, hx, _, hseconds⟩ := Floating.exists_divNat hm
  refine ⟨x, ?_, ?_, ?_⟩
  · rw [Hash.secondsText, hseconds]
  · intro hsame
    by_contra hne
    have hlt := Floating.round_quotient_lt (Int.natAbs_ne_zero.mpr hne) (by decide) hquotient hx
    exact hlt.ne hsame
  · intro hzero
    have hnum : r.num = 0 := by
      rw [← Fraction.toRat_eq_zero, hquotient, hzero]
      norm_num
    rw [Floating.round, if_pos hnum] at hx
    rw [← Floating.finite.inj hx, hzero, Floating.Finite.toRat_magnitude]
    simp [Floating.Finite.zero]

namespace Query

/-! ## What is stored for a value -/

/-- What a store holds for one value. -/
inductive Stored where
  | text (s : String)
  | tree (json : Json)

/-- The number that an index sees in what is stored. -/
def Stored.number? : Stored → Option Binary64
  | .text s => Floating.read? .binary64 s
  | .tree json => json.toBinary?

/-- A bound and what is stored are the same number. -/
def Stored.IsBound (stored : Stored) (bound : String) : Prop :=
  ∃ x y : Binary64, Floating.read? .binary64 bound = some x ∧ stored.number? = some y ∧
    x.equal y = true

/-- What is stored for one value at a place: in a hash the text of the field, in a tree the value of
a field or of a position, or one element of an array. -/
inductive Place.Stores : Storage → Place → Value → Stored → Prop
  | text {path : String} {kind : Kind} {v : Value} {s : String}
      (h : Hash.encodeKind path kind v = .ok (some s)) : Stores .hash (.field kind) v (.text s)
  | tree {path : String} {kind : Kind} {v : Value} {json : Json}
      (hkind : ∀ element separator, kind ≠ .array element separator)
      (h : Tree.encodeKind path kind v = .ok json) : Stores .json (.field kind) v (.tree json)
  | element {path : String} {element : Element} {separator : Char} {v : Value} {json : Json}
      (h : Tree.encodeElement path element v = .ok json) :
      Stores .json (.field (.array element separator)) v (.tree json)
  | position {path : String} {kind : Scalar} {v : Value} {json : Json}
      (h : Tree.encodeElement path (.scalar kind) v = .ok json) :
      Stores .json (.position kind) v (.tree json)

/-- The text of a field in a hash is the text of its value, which is not null. -/
theorem kindText_of_encodeKind {path : String} {kind : Kind} {v : Value} {s : String}
    (h : Hash.encodeKind path kind v = .ok (some s)) : Hash.kindText path kind v = .ok s := by
  unfold Hash.encodeKind at h
  split at h
  · cases h
  · obtain ⟨text, htext, hs⟩ := Outcome.map_eq_ok.mp h
    rw [htext, Option.some.inj hs]

/-- A value that a number field accepts is stored as that number, whatever the form. -/
theorem encodeKind_number {path : String} {literals : Option (List Binary64)} {v : Value}
    {json : Json} (hnull : v.isNull = false)
    (h : Tree.encodeKind path (.number literals) v = .ok json) :
    ∃ x, v = .number (.finite x) ∧ json = Tree.numberTree x := by
  rw [Tree.encodeKind, hnull] at h
  obtain ⟨x, hx, hjson⟩ := Outcome.map_eq_ok.mp h
  exact ⟨x, (Admission.number_iff.1 hx).1, hjson.symm⟩

/-- A date is written as the instant that it denotes. -/
theorem encodeKind_date {path : String} {v : Value} {json : Json} (hnull : v.isNull = false)
    (h : Tree.encodeKind path .date v = .ok json) :
    ∃ t, v.toInstant? = some t ∧ json = .ofInstant t := by
  rw [Tree.encodeKind, hnull] at h
  obtain ⟨t, ht, hjson⟩ := Outcome.map_eq_ok.mp h
  exact ⟨t, Admission.date_iff.1 ht, hjson.symm⟩

/-! ## The bound of a value -/

/-- What a clause on numbers or dates has to do with what is stored for a value: a number is stored
as it is, a date in the unit of its form. -/
inductive Kept (storage : Storage) (place : Place) : Value → Interval → Stored → Prop
  | numberText (x : Finite64) (hplace : place ≠ .field .date) :
      Kept storage place (.number (.finite x)) { dates := false } (.text (Hash.numberText x))
  | numberTree (x : Finite64) (hplace : place ≠ .field .date) :
      Kept storage place (.number (.finite x)) { dates := false } (.tree (Tree.numberTree x))
  | seconds {v : Value} {t : Instant} (hstorage : storage = .hash) (hplace : place = .field .date)
      (h : v.toInstant? = some t) :
      Kept storage place v { dates := true } (.text (Hash.secondsText t.millis))
  | millis {v : Value} {t : Instant} (hstorage : storage = .json)
      (h : v.toInstant? = some t) :
      Kept storage place v { dates := true } (.tree (.ofInstant t))

/-- In a tree one value of a field, a position or an element is stored alike. -/
theorem kept_scalar {path : String} {place : Place} {kind : Scalar} {v : Value} {json : Json}
    {fresh : Matcher} (hfresh : fresh = Matcher.ofScalar .json kind)
    (hfamily : fresh.family = .numeric) (hplace : kind = .number → place ≠ .field .date)
    (hnull : v.isNull = false)
    (h : Tree.encodeKind path (Kind.ofScalar kind) v = .ok json) :
    ∃ clause, fresh = .interval clause ∧ Kept .json place v clause (.tree json) := by
  subst hfresh
  cases kind with
  | number =>
    obtain ⟨x, rfl, rfl⟩ := encodeKind_number hnull h
    exact ⟨_, rfl, .numberTree x (hplace rfl)⟩
  | date =>
    obtain ⟨t, ht, rfl⟩ := encodeKind_date hnull h
    exact ⟨_, rfl, .millis rfl ht⟩
  | _ => contradiction

/-- A clause of the numeric family is on numbers or dates, and values are stored accordingly. -/
theorem Place.Stores.kept {storage : Storage} {place : Place} {path : String} {kind : KindName}
    {fresh : Matcher} {v : Value} {stored : Stored} (h : place.Stores storage v stored)
    (hmatcher : place.matcher path storage = .ok (kind, fresh)) (hfamily : fresh.family = .numeric)
    (hnull : v.isNull = false) :
    ∃ clause, fresh = .interval clause ∧ Kept storage place v clause stored := by
  cases h with
  | @text _ fieldKind _ s h =>
    have htext := kindText_of_encodeKind h
    cases fieldKind with
    | number literals =>
      obtain ⟨x, hx, rfl⟩ := Outcome.map_eq_ok.mp htext
      obtain rfl := (Admission.number_iff.1 hx).1
      cases hmatcher
      exact ⟨_, rfl, .numberText x (by simp)⟩
    | date =>
      obtain ⟨t, ht, rfl⟩ := Outcome.map_eq_ok.mp htext
      -- hashes keep dates in seconds; trees keep milliseconds
      cases hmatcher
      exact ⟨_, rfl, .seconds rfl rfl (Admission.date_iff.1 ht)⟩
    | array element separator =>
      cases element with
      | scalar => cases hmatcher; contradiction
      | object => cases hmatcher
    | tuple => cases hmatcher
    | object => cases hmatcher
    | _ => cases hmatcher; contradiction
  | @tree _ fieldKind _ json hkind h =>
    cases fieldKind with
    | number literals =>
      obtain ⟨x, rfl, rfl⟩ := encodeKind_number hnull h
      cases hmatcher
      exact ⟨_, rfl, .numberTree x (by simp)⟩
    | date =>
      obtain ⟨t, ht, rfl⟩ := encodeKind_date hnull h
      cases hmatcher
      exact ⟨_, rfl, .millis rfl ht⟩
    | array element separator => exact absurd rfl (hkind element separator)
    | tuple => cases hmatcher
    | object => cases hmatcher
    | _ => cases hmatcher; contradiction
  | @element _ element separator _ json h =>
    cases element with
    | object => cases hmatcher
    | scalar scalar =>
      rw [Tree.encodeElement, Tree.encodeScalar_eq] at h
      cases hmatcher
      exact kept_scalar rfl hfamily (by simp) hnull h
  | @position _ scalar _ json h =>
    rw [Tree.encodeElement, Tree.encodeScalar_eq] at h
    cases hmatcher
    exact kept_scalar rfl hfamily (by simp) hnull h

/-- What is stored is a bound exactly if it is the number that the bound spells. -/
theorem Stored.isBound_iff {stored : Stored} {bound : String} {x y : Finite64}
    (hbound : Floating.readChars? .binary64 bound.toList = some (.finite x))
    (hstored : stored.number? = some (.finite y)) : stored.IsBound bound ↔ x.units = y.units := by
  constructor
  · rintro ⟨x', y', hx', hy', hequal⟩
    rw [Floating.read?, hbound] at hx'
    rw [hstored] at hy'
    obtain rfl := Option.some.inj hx'
    obtain rfl := Option.some.inj hy'
    exact of_decide_eq_true hequal
  · intro hunits
    exact ⟨_, _, hbound, hstored, decide_eq_true hunits⟩

/-- Milliseconds as a bound are the seconds in a hash only at the start of 1970. -/
theorem isBound_seconds (t : Instant) :
    (Stored.text (Hash.secondsText t.millis)).IsBound (Decimal.intText t.millis) ↔
      t.millis = 0 := by
  obtain ⟨x, hread, hvalue, _⟩ := Floating.readChars?_intText t.natAbs_millis_lt
  obtain ⟨seconds, htext, hseconds⟩ := Hash.exists_secondsText t.natAbs_millis_lt
  obtain ⟨y, hread', hunits⟩ := Floating.readChars?_token seconds
  have hstored : (Stored.text (Hash.secondsText t.millis)).number? = some (.finite y) := by
    rw [htext]
    exact hread'
  rw [Stored.isBound_iff hread hstored, hunits]
  constructor
  · intro hsame
    have hmagnitude := Floating.Finite.natAbs_units_eq.mp (congrArg Int.natAbs hsame)
    exact hseconds.mp (hmagnitude.symm.trans hvalue)
  · intro hzero
    have hx : x.magnitude.toRat = 0 := by
      rw [hvalue, hzero]
      rfl
    have hy : seconds.magnitude.toRat = x.magnitude.toRat := by
      rw [hseconds.mpr hzero, hvalue]
    exact Floating.Finite.units_eq hy.symm (.inr hx)

/-- Milliseconds as a bound are the milliseconds in a tree. -/
theorem isBound_millis (t : Instant) :
    (Stored.tree (.ofInstant t)).IsBound (Decimal.intText t.millis) := by
  obtain ⟨x, hread, hvalue, hsign⟩ := Floating.readChars?_intText t.natAbs_millis_lt
  obtain ⟨y, hy, hsign', hvalue'⟩ := Floating.exists_ofInt t.natAbs_millis_lt
  have hstored : (Stored.tree (.ofInstant t)).number? = some (.finite y) := congrArg some hy
  rw [Stored.isBound_iff hread hstored]
  exact Floating.Finite.units_eq (hvalue.trans hvalue'.symm) (.inl (hsign.trans hsign'.symm))

/-- A number as a bound is the number itself, as text or as a tree. -/
theorem isBound_number (x : Finite64) :
    (Stored.text (Hash.numberText x)).IsBound (Floating.token (.finite x)) ∧
      (Stored.tree (Tree.numberTree x)).IsBound (Floating.token (.finite x)) := by
  obtain ⟨y, hread, hunits⟩ := Floating.readChars?_token x
  have htext : (Stored.text (Hash.numberText x)).number? = some (.finite y) := hread
  have htree : (Stored.tree (Tree.numberTree x)).number? = some (.finite x) := rfl
  exact ⟨(Stored.isBound_iff hread htext).mpr rfl, (Stored.isBound_iff hread htree).mpr hunits⟩

/-- The bound that a clause makes of a value is what is stored for it, unless the value is a date in
a hash other than the start of 1970. -/
theorem Kept.isBound_iff {storage : Storage} {place : Place} {v : Value} {clause : Interval}
    {stored : Stored} (h : Kept storage place v clause stored) :
    ∃ bound, clause.number v = .ok bound ∧
      (stored.IsBound bound ↔
        (storage = .hash → place = .field .date → v.toMillis? = some 0)) := by
  cases h with
  | numberText x hplace =>
    refine ⟨_, rfl, ?_⟩
    simp [(isBound_number x).1, hplace]
  | numberTree x hplace =>
    refine ⟨_, rfl, ?_⟩
    simp [(isBound_number x).2, hplace]
  | @seconds _ t hstorage hplace hinstant =>
    have hmillis : v.toMillis? = some t.millis := by
      rw [Value.toMillis?, hinstant]
      rfl
    refine ⟨Decimal.intText t.millis, ?_, ?_⟩
    · simp [Interval.number, hmillis]
    · rw [isBound_seconds, hmillis]
      simp [hstorage, hplace]
  | @millis _ t hstorage hinstant =>
    have hmillis : v.toMillis? = some t.millis := by
      rw [Value.toMillis?, hinstant]
      rfl
    refine ⟨Decimal.intText t.millis, ?_, ?_⟩
    · simp [Interval.number, hmillis]
    · simp [isBound_millis, hstorage]

/-! ## The range of a value -/

/-- An operator for one value bounds a range by its number on both sides. -/
theorem operate_eq_interval {clause : Interval} {v : Value} {bound : String}
    (h : clause.number v = .ok bound) :
    (Matcher.operate (.eq v)).on (.interval clause) =
      (.ok (), .interval { clause with
        lower := some ⟨false, bound⟩, upper := some ⟨false, bound⟩ }) := by
  have hside : Interval.bound clause.dates (some (false, v)) = .ok (some ⟨false, bound⟩) := by
    rw [Interval.bound_some, h]
    rfl
  have hcall : clause.call (.eq v) =
      .ok (clause.put (some ⟨false, bound⟩) (some ⟨false, bound⟩)) := by
    unfold Interval.call Operator.lower? Operator.upper?
    simp only [hside]
    rfl
  rw [operate_interval, Interval.next, hcall]
  rfl

namespace Session

/-- The query of one clause for one value of a number or a date. -/
theorem compile_range {schema : Schema} {storage : Storage} {path : String} {kind : KindName}
    {clause : Interval} {v : Value} {bound : String}
    (hresolve : resolve schema storage path = .ok (kind, .interval clause))
    (hbound : clause.number v = .ok bound) :
    ((start schema storage).run [.openClause path, .operate (.eq v)]).search.compile =
      .ok { query := "(@" ++ searchName path ++ ":" ++ ("[" ++ bound ++ " " ++ bound ++ "]") ++ ")",
            dialect := none, parameters := [], sort := none, page := none } := by
  have hopen : ((start schema storage).step (.openClause path)).1 =
      ⟨{ schema, storage, clauses :=
        [⟨path, searchName path, kind, false, .interval clause⟩] }, true⟩ :=
    step_openClause hresolve
  have hrun : (start schema storage).run [.openClause path, .operate (.eq v)] =
      ⟨{ schema, storage, clauses :=
        [⟨path, searchName path, kind, false,
          .interval ⟨clause.dates, some ⟨false, bound⟩, some ⟨false, bound⟩⟩⟩] }, true⟩ := by
    show (((start schema storage).step (.openClause path)).1.step (.operate (.eq v))).1 = _
    rw [hopen]
    exact @step_operate _ _ [] ⟨path, searchName path, kind, false, .interval clause⟩ _ rfl rfl
      (operate_eq_interval hbound)
  rw [hrun]
  rfl

/-- A clause for one value that is stored at its place is a range with one bound on both sides. The
bound is the number that is stored, unless the value is a date in a hash: there the index holds
seconds and the bound is milliseconds, which are the same for the start of 1970 only. -/
theorem range_eq_iff {schema : Schema} {storage : Storage} {path : String} {kind : KindName}
    {fresh : Matcher} {place : Place} {v : Value} {stored : Stored}
    (hresolve : resolve schema storage path = .ok (kind, fresh))
    (hfamily : fresh.family = .numeric)
    (hplace : Place.follow path (.level schema.fields) (segments path) = .ok place)
    (hnull : v.isNull = false) (hstored : place.Stores storage v stored) :
    ∃ bound request,
      ((start schema storage).run [.openClause path, .operate (.eq v)]).search.compile =
        .ok request ∧
      request.query =
        "(@" ++ searchName path ++ ":" ++ ("[" ++ bound ++ " " ++ bound ++ "]") ++ ")" ∧
      (stored.IsBound bound ↔
        (storage = .hash → place = .field .date → v.toMillis? = some 0)) := by
  obtain ⟨other, hfollow, _, hmatcher⟩ := resolve_eq_ok hresolve
  obtain rfl : other = place := Except.ok.inj (hfollow.symm.trans hplace)
  obtain ⟨clause, rfl, hkept⟩ := hstored.kept hmatcher hfamily hnull
  obtain ⟨bound, hbound, hiff⟩ := hkept.isBound_iff
  exact ⟨bound, _, compile_range hresolve hbound, rfl, hiff⟩

/-! ### The second after the start of 1970 -/

/-- People with the dates of their births. -/
def peopleSchema : Schema where
  fields := [("born", .ofKind .date)]
  references := []
  relations := []
  warnings := []

/-- One second into 1970. -/
def firstSecond : Instant := ⟨1, 0, by decide⟩

/-- In a tree the range of the instant is what is stored for it. -/
theorem range_eq_iff_born :
    resolve peopleSchema .json "born" = .ok (.scalar .date, .interval { dates := true }) ∧
      Place.follow "born" (.level peopleSchema.fields) (segments "born") = .ok (.field .date) ∧
      Place.Stores .json (.field .date) (.date firstSecond) (.tree (.ofInstant firstSecond)) ∧
      ∃ bound request,
        ((start peopleSchema .json).run
          [.openClause "born", .operate (.eq (.date firstSecond))]).search.compile = .ok request ∧
        request.query =
          "(@" ++ searchName "born" ++ ":" ++ ("[" ++ bound ++ " " ++ bound ++ "]") ++ ")" ∧
        (Stored.tree (.ofInstant firstSecond)).IsBound bound := by
  have hresolve : resolve peopleSchema .json "born" =
      .ok (.scalar .date, .interval { dates := true }) := by decide
  have hplace : Place.follow "born" (.level peopleSchema.fields) (segments "born") =
      .ok (.field .date) := rfl
  have hstored : Place.Stores .json (.field .date) (.date firstSecond)
      (.tree (.ofInstant firstSecond)) := @Place.Stores.tree "born" _ _ _ (by simp) rfl
  obtain ⟨bound, request, hcompile, hquery, hiff⟩ :=
    range_eq_iff hresolve rfl hplace rfl hstored
  have hbound : (Stored.tree (.ofInstant firstSecond)).IsBound bound := by
    apply hiff.mpr
    intro hhash
    contradiction
  exact ⟨hresolve, hplace, hstored, bound, request, hcompile, hquery, hbound⟩

/-- In a hash the range of the instant is `[1000 1000]`, and what is stored for it is `1`. -/
theorem range_eq_seconds :
    ¬ ∀ (schema : Schema) (storage : Storage) (path : String) (kind : KindName) (fresh : Matcher)
        (place : Place) (v : Value) (stored : Stored) (bound : String) (request : Request),
      resolve schema storage path = .ok (kind, fresh) → fresh.family = .numeric →
      Place.follow path (.level schema.fields) (segments path) = .ok place →
      v.isNull = false → place.Stores storage v stored →
      ((start schema storage).run [.openClause path, .operate (.eq v)]).search.compile =
        .ok request →
      request.query =
        "(@" ++ searchName path ++ ":" ++ ("[" ++ bound ++ " " ++ bound ++ "]") ++ ")" →
      stored.IsBound bound := by
  intro h
  have hresolve : resolve peopleSchema .hash "born" =
      .ok (.scalar .date, .interval { dates := true }) := by decide
  have hstored : Place.Stores .hash (.field .date) (.date firstSecond)
      (.text (Hash.secondsText firstSecond.millis)) := @Place.Stores.text "born" _ _ _ rfl
  have hbound := h peopleSchema .hash "born" _ _ _ (.date firstSecond) _
    (Decimal.intText firstSecond.millis) _ hresolve rfl rfl rfl hstored
    (compile_range hresolve rfl) rfl
  have hzero : firstSecond.millis = 0 := (isBound_seconds firstSecond).mp hbound
  exact absurd hzero (by decide)

end Session

end Query

end DocumentSchema
