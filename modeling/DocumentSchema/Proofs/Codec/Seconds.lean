import DocumentSchema.Codec.Hash
import DocumentSchema.Proofs.Floating.Error
import DocumentSchema.Proofs.Floating.Text
import DocumentSchema.Proofs.Time

/-!
# Seconds with a fraction

A hash keeps a date as the text of its seconds, a quotient of milliseconds that is rounded once when
it is written and once more when it is multiplied again. Below `2 ^ 42` seconds the two errors
together stay below one half, so the milliseconds come back. From there on seconds have ten binary
digits behind the point, and the quotient may be as much as `62 / 128` of a millisecond off
(`SecondsOf`). While the product still has a digit behind the point, a quotient that is off by more
than a quarter of a millisecond is rounded to the half above the milliseconds and then to the next
millisecond; from `2 ^ 52` milliseconds on it is rounded to an integer at once, which is right again.
So the milliseconds that do not come back are known exactly (`Hash.Drifts`), and what is read instead
is the next millisecond away from zero (`readDate_secondsText`). No instant has `2 ^ 43` seconds, and
the years of four digits lie well inside the first range.
-/

set_option autoImplicit false

namespace DocumentSchema

namespace Hash

/-- The milliseconds before or after the start of 1970 that are not read back from their seconds. -/
def Drifts (n : Nat) : Prop :=
  1000 * 2 ^ 42 ≤ n ∧ n < 2 ^ 52 ∧ 63 ≤ 3 * n % 125 ∧ 3 * n % 125 ≤ 92

instance (n : Nat) : Decidable (Drifts n) := by
  unfold Drifts
  infer_instance

/-- The milliseconds that are read from the seconds of milliseconds. -/
def rereadMillis (m : Int) : Int :=
  if Drifts m.natAbs then (if m < 0 then m - 1 else m + 1) else m

/-- Milliseconds that drift come back one further from 1970. -/
theorem natAbs_rereadMillis (m : Int) :
    (rereadMillis m).natAbs = if Drifts m.natAbs then m.natAbs + 1 else m.natAbs := by
  unfold rereadMillis
  split
  · split <;> omega
  · rfl

/-- Milliseconds come back on the side of 1970 that they were on. -/
theorem rereadMillis_neg_iff {m : Int} : rereadMillis m < 0 ↔ m < 0 := by
  unfold rereadMillis
  split
  · split <;> omega
  · rfl

/-- Milliseconds that do not drift come back. -/
theorem rereadMillis_of_kept {m : Int} (h : ¬Drifts m.natAbs) : rereadMillis m = m := if_neg h

end Hash

namespace Floating

/-- Numbers other than zero that are equal have one sign. -/
theorem Finite.negative_eq_of_units {f : Format} {x y : Finite f} (hunits : y.units = x.units)
    (hpositive : 0 < y.magnitude.toRat) : y.negative = x.negative := by
  have hne : y.units.natAbs ≠ 0 := by
    intro hzero
    have hvalue := y.natAbs_units
    rw [hzero, Nat.cast_zero, zero_eq_mul] at hvalue
    rcases hvalue with hvalue | hvalue
    · exact hpositive.ne' hvalue
    · exact (zpow_ne_zero _ two_ne_zero) hvalue
  rw [units, units, withSign, withSign] at hunits
  rw [units, withSign] at hne
  by_contra hsign
  cases hy : y.negative with
  | true =>
    have hx : x.negative = false := by
      rw [hy] at hsign
      simpa using Ne.symm hsign
    rw [hy, if_pos rfl] at hne
    rw [hy, hx, if_pos rfl, if_neg Bool.false_ne_true] at hunits
    omega
  | false =>
    have hx : x.negative = true := by
      rw [hy] at hsign
      simpa using Ne.symm hsign
    rw [hy, if_neg Bool.false_ne_true] at hne
    rw [hy, hx, if_neg Bool.false_ne_true, if_pos rfl] at hunits
    omega

/-- What a thousandth of `n` below `1000 * 2 ^ 43` is rounded to: a number near it, and in the last
binade the multiple of `1 / 1024` nearest to it. -/
inductive SecondsOf (n : Nat) (a : ℚ) : Prop
  | near (hn : n < 1000 * 2 ^ 42) (h : |a - n / 1000| ≤ 1 / 2 ^ 12)
  | step (q : Nat) (hn : 1000 * 2 ^ 42 ≤ n) (hlast : n < 1000 * 2 ^ 43) (ha : a = q / 1024)
      (hlow : 128 * n ≤ 125 * q + 62) (hhigh : 125 * q ≤ 128 * n + 62)

/-- The seconds of a number of milliseconds stay below `2 ^ 44`. -/
theorem SecondsOf.lt {n : Nat} {a : ℚ} (h : SecondsOf n a) : a < 2 ^ ((44 : Nat) : Int) := by
  cases h with
  | near hn h =>
    have hquotient := (quotient_lt_iff (by decide)).2 hn
    obtain ⟨_, hhigh⟩ := abs_le.1 h
    norm_num at hquotient hhigh ⊢
    linarith
  | step q hn hlast ha hlow hhigh =>
    have hquotient : (q : ℚ) / (1024 : Nat) < 2 ^ ((44 : Nat) : Int) :=
      (quotient_lt_iff (by decide)).2 (by omega)
    rw [ha]
    exact_mod_cast hquotient

/-- The seconds of some milliseconds are positive. -/
theorem SecondsOf.pos {n : Nat} {a : ℚ} (h : SecondsOf n a) (hne : n ≠ 0) : 0 < a := by
  cases h with
  | near hn h =>
    have hone : (1 : ℚ) ≤ n := by exact_mod_cast Nat.pos_of_ne_zero hne
    obtain ⟨hlow, _⟩ := abs_le.1 h
    norm_num at hlow
    linarith
  | step q hn hlast ha hlow hhigh =>
    have hq : (0 : ℚ) < q := by exact_mod_cast (by omega : 0 < q)
    rw [ha]
    positivity

/-- Milliseconds over a thousand, rounded to double precision, are the seconds. -/
theorem secondsOf_round {r : Fraction} {n : Nat} (hn : n < 1000 * 2 ^ 43)
    (hr : r.toRat = (n : ℚ) / (1000 : Nat)) {negative : Bool} {x : Finite64}
    (hx : round .binary64 negative r = .finite x) : SecondsOf n x.magnitude.toRat := by
  by_cases hsmall : n < 1000 * 2 ^ 42
  · have hbound : r.toRat < 2 ^ ((42 : Nat) : Int) := by rwa [hr, quotient_lt_iff (by decide)]
    have herror := round_error (by decide) (by decide) hbound hx
    have hstep : (2 : ℚ) ^ (((42 : Nat) : Int) - Format.binary64.precision) / 2 = 1 / 2 ^ 12 := by
      norm_num [Format.binary64]
    rw [hr, hstep, Nat.cast_ofNat] at herror
    exact .near hsmall herror
  · obtain ⟨q, hvalue, hlow, hhigh, _⟩ := round_quotient (k := 42) (d := 10) (by decide) hr
      (by omega) (by omega) rfl (by decide) hx
    norm_num at hvalue
    exact .step q (not_lt.1 hsmall) hn hvalue (by omega) (by omega)

/-- Milliseconds as seconds are a thousandth that is rounded. -/
theorem exists_divNat {m : Int} (hm : m.natAbs < 9007199254740992) :
    ∃ (r : Fraction) (x : Finite64), r.toRat = (m.natAbs : ℚ) / (1000 : Nat) ∧
      round .binary64 x.negative r = .finite x ∧ x.negative = decide (m < 0) ∧
      (ofInt .binary64 m).divNat 1000 (by decide) = .finite x := by
  obtain ⟨y, hy, hnegative, hvalue⟩ := exists_ofInt hm
  have hquotient : (y.magnitude.divNat 1000 (by decide)).toRat =
      (m.natAbs : ℚ) / (1000 : Nat) := by
    rw [Fraction.toRat_divNat, hvalue]
  have hbound : (y.magnitude.divNat 1000 (by decide)).toRat <
      2 ^ ((971 : Int) + (53 : Nat) - 1) := by
    have hlast : (y.magnitude.divNat 1000 (by decide)).toRat < 2 ^ ((53 : Nat) : Int) := by
      rw [hquotient, quotient_lt_iff (by decide)]
      omega
    exact hlast.trans_le (zpow_le_zpow_right₀ one_le_two (by norm_num))
  obtain ⟨x, hx, hsign⟩ := exists_round (f := .binary64) (by decide) (by decide) y.negative hbound
  refine ⟨_, x, hquotient, hsign ▸ hx, hsign.trans hnegative, ?_⟩
  rw [hy, ← hx]
  rfl

/-- Seconds times a thousand are nearest to the milliseconds or to the next ones. -/
theorem nearestUp_round {r : Fraction} {n : Nat} {a : ℚ} (h : SecondsOf n a)
    (hr : r.toRat = a * (1000 : Nat)) {negative : Bool} {z : Finite64}
    (hz : round .binary64 negative r = .finite z) :
    z.magnitude.nearestUp = if Hash.Drifts n then n + 1 else n := by
  cases h with
  | near hn h =>
    -- below this bound the two roundings together stay short of a half
    have hkept : ¬Hash.Drifts n := fun hdrifts => absurd hdrifts.1 (not_le.2 hn)
    have hsmall : (n : ℚ) + 1 ≤ 1000 * 2 ^ 42 := by exact_mod_cast hn
    obtain ⟨hlow, hhigh⟩ := abs_le.1 h
    rw [Nat.cast_ofNat] at hr
    have hbound : r.toRat < 2 ^ (52 : Int) := by
      rw [hr]
      norm_num at hsmall hhigh ⊢
      linarith
    have herror := round_error (by decide) (by decide) hbound hz
    have hstep : (2 : ℚ) ^ ((52 : Int) - Format.binary64.precision) / 2 = 1 / 4 := by
      norm_num [Format.binary64]
    rw [hr, hstep] at herror
    obtain ⟨hlow', hhigh'⟩ := abs_le.1 herror
    rw [if_neg hkept]
    apply Fraction.nearestUp_eq_of_near
    rw [abs_lt]
    constructor <;> linarith
  | step q hn hlast ha hlow hhigh =>
    have hproduct : r.toRat = ((125 * q : Nat) : ℚ) / (128 : Nat) := by
      rw [hr, ha]
      push_cast
      ring
    by_cases hhalf : n < 2 ^ 52
    · -- the product still has a digit behind the point
      obtain ⟨p, hvalue, hbelow, habove, hmiddle⟩ := round_quotient (k := 51) (d := 1) (by decide)
        hproduct (by omega) (by omega) rfl (by decide) hz
      rw [pow_one] at hvalue
      rw [Fraction.nearestUp_of_half hvalue]
      have htie := hmiddle (2 * n)
      have hquotient : q = n + 3 * n / 125 ∨ q = n + 3 * n / 125 + 1 := by omega
      by_cases hdrifts : Hash.Drifts n
      · rw [if_pos hdrifts]
        unfold Hash.Drifts at hdrifts
        omega
      · rw [if_neg hdrifts]
        unfold Hash.Drifts at hdrifts
        omega
    · -- the product is rounded to an integer
      obtain ⟨p, hvalue, hbelow, habove, _⟩ := round_quotient (k := 52) (d := 0) (by decide)
        hproduct (by omega) (by omega) rfl (by decide) hz
      have hkept : ¬Hash.Drifts n := fun hdrifts => hhalf hdrifts.2.1
      have hsame : p = n := by omega
      rw [if_neg hkept]
      apply Fraction.nearestUp_eq
      rw [hvalue, hsame, pow_zero, div_one]

/-- The sign of an integer put on its absolute value, whatever the sign of a zero. -/
theorem Finite.withSign_eq {f : Format} {x : Finite f} {n : Nat} {i : Int} (hn : n = i.natAbs)
    (hsign : i ≠ 0 → x.negative = decide (i < 0)) : x.withSign n = i := by
  by_cases hzero : i = 0
  · rw [hn, hzero, withSign]
    split <;> rfl
  · rw [hn]
    exact withSign_natAbs (hsign hzero)

/-- The seconds of milliseconds, times a thousand, are nearest to the milliseconds that are read. -/
theorem nearestInt_mulNat {m : Int} (hm : m.natAbs < 1000 * 2 ^ 43) {x : Finite64}
    (hx : (ofInt .binary64 m).divNat 1000 (by decide) = .finite x) {y : Finite64}
    (hunits : y.units = x.units) :
    ((Floating.finite y).mulNat 1000).toFinite?.map Finite.nearestInt =
      some (Hash.rereadMillis m) := by
  obtain ⟨r, x', hr, hround, hsign, hx'⟩ := exists_divNat (hm.trans (by decide))
  obtain rfl := Floating.finite.inj (hx.symm.trans hx')
  have hseconds := secondsOf_round hm hr hround
  have hvalue : y.magnitude.toRat = x.magnitude.toRat :=
    Finite.natAbs_units_eq.1 (congrArg Int.natAbs hunits)
  rw [← hvalue] at hseconds
  have hproduct : (y.magnitude.mulNat 1000).toRat = y.magnitude.toRat * (1000 : Nat) :=
    Fraction.toRat_mulNat _ _
  have hbound : (y.magnitude.mulNat 1000).toRat < 2 ^ ((971 : Int) + (53 : Nat) - 1) := by
    calc (y.magnitude.mulNat 1000).toRat = y.magnitude.toRat * (1000 : Nat) := hproduct
      _ < 2 ^ (54 : Int) := by
        have hlast := hseconds.lt
        norm_num at hlast ⊢
        linarith
      _ ≤ 2 ^ ((971 : Int) + (53 : Nat) - 1) := zpow_le_zpow_right₀ one_le_two (by norm_num)
  obtain ⟨z, hz, hsign'⟩ := exists_round (f := .binary64) (by decide) (by decide) y.negative hbound
  have hnearest := nearestUp_round hseconds hproduct hz
  have hread : (Floating.finite y).mulNat 1000 = .finite z := hz
  rw [hread]
  refine congrArg some ?_
  rw [Finite.nearestInt, hnearest]
  apply Finite.withSign_eq (Hash.natAbs_rereadMillis m).symm
  intro hne
  have hm0 : m ≠ 0 := by
    rintro rfl
    exact hne rfl
  -- a positive number has the sign of its units
  have hnegative : y.negative = x.negative :=
    Finite.negative_eq_of_units hunits (hseconds.pos (Int.natAbs_ne_zero.2 hm0))
  rw [hsign', hnegative, hsign, decide_eq_decide]
  exact Hash.rereadMillis_neg_iff.symm

end Floating

namespace Hash

/-- The text of milliseconds as seconds is read as the instant of the milliseconds that come back. -/
theorem readDate_secondsText {m : Int} (hm : m.natAbs < 1000 * 2 ^ 43) {t : Instant}
    (ht : Instant.ofMillis? (rereadMillis m) = some t) (path : String) :
    readDate path (secondsText m) = .ok t := by
  obtain ⟨_, x, _, _, _, hx⟩ := Floating.exists_divNat (hm.trans (by decide))
  have htext : secondsText m = Floating.token (.finite x) := by
    rw [secondsText, hx]
  obtain ⟨y, hread, hunits⟩ := Floating.readChars?_token x
  have htrim : Text.trimmed (Floating.token (.finite x)) = (Floating.token (.finite x)).toList :=
    Decimal.trim_eq_self fun c hc =>
      Decimal.not_isBlank_of_isNumberChar ((Floating.token_chars x).2 c hc)
  obtain ⟨z, hz, hnearest⟩ :=
    Option.map_eq_some_iff.1 (Floating.nearestInt_mulNat hm hx hunits)
  have hinstant : (Floating.readChars? .binary64 (Text.trimmed (secondsText m))).bind
      instantOfSeconds? = some t := by
    rw [htext, htrim, hread, Option.bind_some, instantOfSeconds?, hz, Option.bind_some, hnearest]
    exact ht
  rw [readDate, hinstant]

end Hash

namespace Instant

/-- The milliseconds that are read for an instant denote an instant, except at the end of time. -/
theorem MillisInRange.exists_reread {t : Instant} (h : t.MillisInRange) :
    ∃ u, ofMillis? (Hash.rereadMillis t.millis) = some u ∧
      u.millis = Hash.rereadMillis t.millis := by
  obtain ⟨u, hu⟩ := t.millisInRange_iff.1 h
  obtain ⟨hmin, hmax⟩ := ofMillis?_range hu
  -- what drifts is far from both ends of time
  have hrange : minSeconds ≤ Hash.rereadMillis t.millis / 1000 ∧
      Hash.rereadMillis t.millis / 1000 ≤ maxSeconds := by
    simp only [minSeconds, maxSeconds] at hmin hmax ⊢
    have habs := Hash.natAbs_rereadMillis t.millis
    by_cases hdrifts : Hash.Drifts t.millis.natAbs
    · rw [if_pos hdrifts] at habs
      unfold Hash.Drifts at hdrifts
      omega
    · rw [Hash.rereadMillis_of_kept hdrifts]
      exact ⟨hmin, hmax⟩
  exact exists_ofMillis? hrange.1 hrange.2

/-- The instants of the years 0 to 9999. -/
def InFourDigitYears (t : Instant) : Prop :=
  (CalendarDate.mk 0 1 1).dayNumber * 86400 ≤ t.seconds ∧
    t.seconds < (CalendarDate.mk 10000 1 1).dayNumber * 86400

/-- The seconds of a year of four digits have less than forty-two binary digits. -/
theorem InFourDigitYears.not_drifts {t : Instant} (h : t.InFourDigitYears) :
    ¬Hash.Drifts t.millis.natAbs := by
  obtain ⟨hlow, hhigh⟩ := h
  obtain ⟨_, _, hnanos, _⟩ := t.valid
  have hfirst : (CalendarDate.mk 0 1 1).dayNumber = -719528 := by decide
  have hlast : (CalendarDate.mk 10000 1 1).dayNumber = 2932897 := by decide
  rw [hfirst] at hlow
  rw [hlast] at hhigh
  simp only [nanosPerSecond] at hnanos
  simp only [Hash.Drifts, millis, nanosPerMilli]
  omega

/-- An instant of the years 0 to 9999 has its milliseconds in range. -/
theorem InFourDigitYears.millisInRange {t : Instant} (h : t.InFourDigitYears) :
    t.MillisInRange := by
  obtain ⟨_, hhigh⟩ := h
  have hlast : (CalendarDate.mk 10000 1 1).dayNumber = 2932897 := by decide
  rw [hlast] at hhigh
  refine Or.inl ?_
  simp only [maxSeconds]
  omega

end Instant

/-- A date in a year of four digits is read as the same instant from the text of its seconds and
from its milliseconds. -/
theorem exists_readDate {t : Instant} (h : t.InFourDigitYears) :
    ∃ u, (∀ path, Hash.readDate path (Hash.secondsText t.millis) = .ok u) ∧
      ∀ path, Tree.decodeDate path (.ofInstant t) = .ok (.date u) := by
  obtain ⟨u, hu⟩ := t.millisInRange_iff.1 h.millisInRange
  have hsame := Hash.rereadMillis_of_kept h.not_drifts
  refine ⟨u, Hash.readDate_secondsText t.natAbs_millis_lt_pow (hsame.symm ▸ hu), ?_⟩
  intro path
  have hread : (Json.ofInstant t).toBinary?.bind Tree.instantOfMillis? = some u :=
    (Tree.instantOfMillis?_millis t).trans hu
  rw [Tree.decodeDate, hread]

end DocumentSchema
