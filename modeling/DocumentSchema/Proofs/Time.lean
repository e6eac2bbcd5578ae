import DocumentSchema.Codec.Tree
import DocumentSchema.Proofs.Decimal.Numeral
import DocumentSchema.Proofs.Floating.Rounding
import DocumentSchema.Schema.Default

/-!
# Instants and their milliseconds

Double precision holds the milliseconds of every instant exactly (`nearestInt_millis`), so an
instant of whole milliseconds comes back from them (`ofMillis?_millis`). A leap second counts past
its minute, which only matters at the end of time: no text of a date and time reaches that far
(`seconds_of_read?`), so the milliseconds of a default always denote an instant again.
-/

set_option autoImplicit false

namespace DocumentSchema.Instant

/-- No instant has `2 ^ 43` seconds. -/
theorem natAbs_millis_lt_pow (t : Instant) : t.millis.natAbs < 1000 * 2 ^ 43 := by
  obtain ⟨hmin, hmax, hnanos, _⟩ := t.valid
  simp only [minSeconds, maxSeconds, nanosPerSecond] at hmin hmax hnanos
  simp only [millis, nanosPerMilli]
  omega

/-- The milliseconds of an instant have at most 53 binary digits. -/
theorem natAbs_millis_lt (t : Instant) : t.millis.natAbs < 9007199254740992 :=
  t.natAbs_millis_lt_pow.trans (by decide)

/-- Double precision holds the milliseconds of an instant. -/
theorem nearestInt_millis (t : Instant) :
    (Floating.ofInt .binary64 t.millis).toFinite?.map Floating.Finite.nearestInt = some t.millis :=
  Floating.nearestInt_ofInt t.natAbs_millis_lt

/-- An instant has the seconds and nanoseconds that it was made of. -/
theorem ofParts?_eq_some {seconds : Int} {nanos : Nat} {t : Instant}
    (h : ofParts? seconds nanos = some t) : t.seconds = seconds ∧ t.nanos = nanos := by
  rw [ofParts?] at h
  split at h
  · obtain rfl := Option.some.inj h
    exact ⟨rfl, rfl⟩
  · exact absurd h (by simp)

/-- A number of milliseconds in range denotes an instant, and is the milliseconds of that instant.
-/
theorem exists_ofMillis? {m : Int} (hmin : minSeconds ≤ m / 1000) (hmax : m / 1000 ≤ maxSeconds) :
    ∃ t, ofMillis? m = some t ∧ t.millis = m := by
  have hvalid : Valid (m / 1000) ((m % 1000).toNat * nanosPerMilli) := by
    refine ⟨hmin, hmax, ?_, ?_⟩
    · simp only [nanosPerMilli, nanosPerSecond]
      omega
    · simp only [nanosPerMilli, nanosPerSecond]
      omega
  refine ⟨⟨_, _, hvalid⟩, ?_, ?_⟩
  · rw [ofMillis?, ofParts?, dif_pos hvalid]
  · simp only [millis, nanosPerMilli]
    omega

/-- Milliseconds that denote an instant lie in the years that instants have. -/
theorem ofMillis?_range {m : Int} {t : Instant} (h : ofMillis? m = some t) :
    minSeconds ≤ m / 1000 ∧ m / 1000 ≤ maxSeconds := by
  obtain ⟨hseconds, _⟩ := ofParts?_eq_some h
  obtain ⟨hmin, hmax, _, _⟩ := t.valid
  rw [hseconds] at hmin hmax
  exact ⟨hmin, hmax⟩

/-- A number of milliseconds denotes an instant of whole milliseconds outside leap seconds. -/
theorem whole_of_ofMillis? {m : Int} {t : Instant} (h : ofMillis? m = some t) :
    t.nanos < nanosPerSecond ∧ t.nanos % nanosPerMilli = 0 := by
  have hnanos := (ofParts?_eq_some h).2
  simp only [nanosPerMilli] at hnanos
  simp only [nanosPerSecond, nanosPerMilli]
  omega

/-- Instants whose milliseconds lie in range: all but those of a leap second at the end of time. -/
def MillisInRange (t : Instant) : Prop := t.seconds < maxSeconds ∨ t.nanos < nanosPerSecond

/-- The milliseconds of an instant denote an instant again, except at the end of time. -/
theorem millisInRange_iff (t : Instant) : t.MillisInRange ↔ ∃ u, ofMillis? t.millis = some u := by
  obtain ⟨hmin, hmax, hnanos, _⟩ := t.valid
  simp only [nanosPerSecond] at hnanos
  constructor
  · intro h
    have hrange : minSeconds ≤ t.millis / 1000 ∧ t.millis / 1000 ≤ maxSeconds := by
      simp only [MillisInRange, nanosPerSecond] at h
      simp only [millis, nanosPerMilli]
      omega
    obtain ⟨u, hu, _⟩ := exists_ofMillis? hrange.1 hrange.2
    exact ⟨u, hu⟩
  · rintro ⟨u, hu⟩
    obtain ⟨_, hrange⟩ := ofMillis?_range hu
    simp only [millis, nanosPerMilli] at hrange
    simp only [MillisInRange, nanosPerSecond]
    omega

/-- An instant of whole milliseconds outside leap seconds is the instant of its milliseconds. -/
theorem ofMillis?_millis {t : Instant} (hleap : t.nanos < nanosPerSecond)
    (hwhole : t.nanos % nanosPerMilli = 0) : ofMillis? t.millis = some t := by
  obtain ⟨seconds, nanos, hvalid⟩ := t
  dsimp only at hleap hwhole
  simp only [nanosPerSecond, nanosPerMilli] at hleap hwhole
  have hseconds : (millis ⟨seconds, nanos, hvalid⟩) / 1000 = seconds := by
    simp only [millis, nanosPerMilli]
    omega
  have hnanos : ((millis ⟨seconds, nanos, hvalid⟩) % 1000).toNat * nanosPerMilli = nanos := by
    simp only [millis, nanosPerMilli]
    omega
  rw [ofMillis?, hseconds, hnanos, ofParts?, dif_pos hvalid]

/-! ## Texts of dates and times -/

/-- A number read from so many digits has no more digits. -/
theorem takeNumber?_lt {count n : Nat} {cs rest : List Char}
    (h : takeNumber? count cs = some (n, rest)) : n < 10 ^ count := by
  simp only [takeNumber?, Option.bind_eq_bind, Option.bind_eq_some_iff] at h
  obtain ⟨ds, _, hds⟩ := h
  split at hds
  · rename_i hlength
    obtain ⟨rfl, _⟩ := Prod.mk.inj (Option.some.inj hds)
    exact hlength ▸ Decimal.value_lt ds
  · exact absurd hds (by simp)

/-- The offset of a time zone is shorter than a day. -/
theorem natAbs_takeOffset?_lt {cs : List Char} {offset : Int} (h : takeOffset? cs = some offset) :
    offset.natAbs < 86400 := by
  unfold takeOffset? at h
  split at h
  · obtain rfl := Option.some.inj h
    decide
  · obtain rfl := Option.some.inj h
    decide
  · rename_i sign cs _ _
    -- either sign is followed by hours and minutes
    have htail : ∀ direction : Int, direction = 1 ∨ direction = -1 →
        ((takeNumber? 2 cs).bind fun hours => (takeChar? [':'] hours.2).bind fun cs =>
          (takeNumber? 2 cs).bind fun minutes =>
            if hours.1 < 24 ∧ minutes.1 < 60 ∧ minutes.2.isEmpty = true then
              some (direction * (hours.1 * 3600 + minutes.1 * 60 : Nat))
            else none) = some offset → offset.natAbs < 86400 := by
      intro direction hsign htail
      obtain ⟨hours, _, htail⟩ := Option.bind_eq_some_iff.1 htail
      obtain ⟨_, _, htail⟩ := Option.bind_eq_some_iff.1 htail
      obtain ⟨minutes, _, htail⟩ := Option.bind_eq_some_iff.1 htail
      split at htail
      · obtain rfl := Option.some.inj htail
        rcases hsign with rfl | rfl <;> omega
      · exact absurd htail (by simp)
    dsimp only [Option.bind_eq_bind] at h
    split at h
    · exact htail 1 (Or.inl rfl) h
    · split at h
      · exact htail (-1) (Or.inr rfl) h
      · exact absurd h (by simp)
  · exact absurd h (by simp)

/-- The days of a date with a year of four digits. -/
theorem dayNumber_bounds {d : CalendarDate} (hvalid : d.isValid = true) (hyear : 0 ≤ d.year)
    (hyear' : d.year < 10000) : -800000 < d.dayNumber ∧ d.dayNumber < 3000000 := by
  simp only [CalendarDate.isValid, Bool.and_eq_true, decide_eq_true_eq] at hvalid
  obtain ⟨⟨⟨hmonth, hmonth'⟩, hday⟩, hday'⟩ := hvalid
  have hdays : d.day ≤ 31 := by
    refine le_trans hday' ?_
    unfold CalendarDate.daysInMonth
    split
    · split <;> omega
    · split <;> omega
  simp only [CalendarDate.dayNumber, CalendarDate.epochOffset]
  split <;> omega

/-- The text of a date and time denotes an instant well inside the range of instants. -/
theorem seconds_of_read? {s : String} {t : Instant} (h : read? s = some t) :
    minSeconds < t.seconds ∧ t.seconds < maxSeconds := by
  unfold read? at h
  obtain ⟨⟨year, _⟩, hyear, h⟩ := Option.bind_eq_some_iff.1 h
  obtain ⟨_, _, h⟩ := Option.bind_eq_some_iff.1 h
  obtain ⟨⟨month, _⟩, _, h⟩ := Option.bind_eq_some_iff.1 h
  obtain ⟨_, _, h⟩ := Option.bind_eq_some_iff.1 h
  obtain ⟨⟨day, _⟩, _, h⟩ := Option.bind_eq_some_iff.1 h
  obtain ⟨_, _, h⟩ := Option.bind_eq_some_iff.1 h
  obtain ⟨⟨hour, _⟩, _, h⟩ := Option.bind_eq_some_iff.1 h
  obtain ⟨_, _, h⟩ := Option.bind_eq_some_iff.1 h
  obtain ⟨⟨minute, _⟩, _, h⟩ := Option.bind_eq_some_iff.1 h
  obtain ⟨_, _, h⟩ := Option.bind_eq_some_iff.1 h
  obtain ⟨⟨second, _⟩, _, h⟩ := Option.bind_eq_some_iff.1 h
  obtain ⟨⟨nanos, _⟩, _, h⟩ := Option.bind_eq_some_iff.1 h
  obtain ⟨offset, hoffset, h⟩ := Option.bind_eq_some_iff.1 h
  have hyear := takeNumber?_lt hyear
  have hoffset := natAbs_takeOffset?_lt hoffset
  dsimp only at h
  split at h
  · rename_i hrange
    simp only [Bool.and_eq_true, decide_eq_true_eq] at hrange
    obtain ⟨⟨⟨hdate, hhour⟩, hminute⟩, hsecond⟩ := hrange
    obtain ⟨hlow, hhigh⟩ := dayNumber_bounds hdate (by dsimp only; omega) (by dsimp only; omega)
    obtain ⟨hseconds, _⟩ := ofParts?_eq_some h
    rw [hseconds]
    simp only [minSeconds, maxSeconds]
    split <;> omega
  · exact absurd h (by simp)

end DocumentSchema.Instant

namespace DocumentSchema

/-- The instant of the milliseconds of an instant, as numbers hold them. -/
theorem Tree.instantOfMillis?_millis (t : Instant) :
    Tree.instantOfMillis? (Floating.ofInt .binary64 t.millis) = Instant.ofMillis? t.millis := by
  have h := t.nearestInt_millis
  unfold Tree.instantOfMillis?
  cases hx : (Floating.ofInt .binary64 t.millis).toFinite? with
  | none =>
    rw [hx] at h
    exact absurd h (by simp)
  | some x =>
    rw [hx] at h
    rw [Option.bind_some, Option.some.inj h]

/-- The milliseconds that the tree of a default denotes denote themselves. -/
theorem Value.toMillis?_ofInt {json : Json} {m : Int} (h : (Value.ofJson json).toMillis? = some m) :
    (Value.number (Floating.ofInt .binary64 m)).toMillis? = some m := by
  obtain ⟨t, ht, rfl⟩ := Option.map_eq_some_iff.1 h
  -- the milliseconds lie in range whether or not the instant is a leap second
  have hrange : Instant.minSeconds ≤ t.millis / 1000 ∧ t.millis / 1000 ≤ Instant.maxSeconds := by
    cases json with
    | number n =>
      obtain ⟨x, _, hx⟩ := Option.bind_eq_some_iff.1 ht
      obtain ⟨hmin, hmax⟩ := Instant.ofMillis?_range hx
      obtain ⟨_, hsame, hmillis⟩ := Instant.exists_ofMillis? hmin hmax
      rw [hx] at hsame
      rw [Option.some.inj hsame, hmillis]
      exact ⟨hmin, hmax⟩
    | string s =>
      obtain ⟨hmin, hmax⟩ := Instant.seconds_of_read? ht
      obtain ⟨_, _, hnanos, _⟩ := t.valid
      simp only [Instant.nanosPerSecond] at hnanos
      simp only [Instant.minSeconds, Instant.maxSeconds, Instant.millis, Instant.nanosPerMilli] at *
      omega
    | null => exact absurd ht (by simp [Value.ofJson, Value.toInstant?])
    | bool b => exact absurd ht (by simp [Value.ofJson, Value.toInstant?])
    | array items => exact absurd ht (by simp [Value.ofJson, Value.toInstant?])
    | object members => exact absurd ht (by simp [Value.ofJson, Value.toInstant?])
  obtain ⟨u, hu, hmillis⟩ := Instant.exists_ofMillis? hrange.1 hrange.2
  have hinstant := Tree.instantOfMillis?_millis t
  rw [hu] at hinstant
  rw [Value.toMillis?]
  show (Tree.instantOfMillis? (Floating.ofInt .binary64 t.millis)).map Instant.millis = some t.millis
  rw [hinstant, Option.map_some, hmillis]

end DocumentSchema
