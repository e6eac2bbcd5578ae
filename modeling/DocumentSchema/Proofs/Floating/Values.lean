import DocumentSchema.Proofs.Floating.Nearest
import DocumentSchema.Proofs.Floating.Text

/-!
# Numbers compared by their values

Numbers of one format are compared as multiples of its least positive number, which is to compare
their values (`le_iff`, `equal_iff`, `lt_iff`). A number without its whole part is computed with a
rounding. What is left of a number is a multiple of the least positive number too, so rounding does
not take it away, and nothing is left exactly of the integers (`fract_equal_zero_iff`).
-/

set_option autoImplicit false

namespace DocumentSchema.Floating

variable {f : Format}

/-! ## Values -/

namespace Finite

/-- The value of a number is an integer if its absolute value is that of the integer and it has the
sign of the integer, unless it is zero. -/
theorem value_eq_iff {x : Finite f} {i : Int} :
    x.value = i ↔ x.magnitude.toRat = i.natAbs ∧ (x.negative = decide (i < 0) ∨ i = 0) := by
  have hmagnitude := x.magnitude_nonneg
  constructor
  · intro h
    have habs : x.magnitude.toRat = i.natAbs := by
      rw [← abs_value, h, Nat.cast_natAbs, Int.cast_abs]
    refine ⟨habs, ?_⟩
    unfold value at h
    cases hsign : x.negative with
    | true =>
      rw [hsign, if_pos rfl] at h
      have hle : (i : ℚ) ≤ 0 := by linarith
      have hle : i ≤ 0 := by exact_mod_cast hle
      rcases lt_or_eq_of_le hle with hlt | hzero
      · exact Or.inl (decide_eq_true hlt).symm
      · exact Or.inr hzero
    | false =>
      rw [hsign, if_neg Bool.false_ne_true] at h
      have hle : (0 : ℚ) ≤ i := by linarith
      have hle : 0 ≤ i := by exact_mod_cast hle
      exact Or.inl (decide_eq_false (not_lt.2 hle)).symm
  · rintro ⟨habs, hsign | hzero⟩
    · unfold value
      rw [hsign, habs, Nat.cast_natAbs]
      by_cases hi : i < 0
      · rw [decide_eq_true hi, if_pos rfl, abs_of_neg hi, Int.cast_neg, neg_neg]
      · rw [decide_eq_false hi, if_neg Bool.false_ne_true, abs_of_nonneg (not_lt.1 hi)]
    · rw [hzero] at habs ⊢
      rw [Int.cast_zero, ← abs_eq_zero, abs_value, habs]
      rfl

/-- Zero of either sign has the value zero. -/
theorem value_zero (negative : Bool) : (zero negative : Finite f).value = 0 := by
  rw [← abs_eq_zero, abs_value, magnitude_zero]

/-- A number is an integer if its value is. -/
theorem toInt?_eq_some_iff {x : Finite f} {i : Int} : x.toInt? = some i ↔ x.value = i := by
  rw [value_eq_iff]
  constructor
  · exact magnitude_of_toInt?
  · rintro ⟨habs, hsign | hzero⟩
    · exact toInt?_of_magnitude habs hsign
    · have hnum := Fraction.num_eq_of_toRat habs
      rw [hzero, Int.natAbs_zero, Nat.zero_mul] at hnum
      simp [toInt?, hnum, withSign, hzero]

/-- A number is an integer, its whole part, exactly if it has no fraction. -/
theorem toInt?_eq (x : Finite f) :
    x.toInt? = if x.magnitude.fract.num = 0 then some x.trunc else none := rfl

/-- A number that is an integer is its own whole part. -/
theorem trunc_eq {x : Finite f} {i : Int} (h : x.value = i) : x.trunc = i := by
  have hint := toInt?_eq_some_iff.2 h
  rw [toInt?_eq] at hint
  split at hint
  · exact Option.some.inj hint
  · cases hint

/-- The units of a number count its value in least positive numbers. -/
theorem cast_units (x : Finite f) : (x.units : ℚ) = x.value * 2 ^ (-f.minExponent) := by
  have hunits : x.units = x.withSign x.units.natAbs := by
    unfold units withSign
    split <;> omega
  have habs := x.natAbs_units
  rw [hunits, withSign, value]
  split
  · rw [Int.cast_neg, Int.cast_natCast, habs, neg_mul]
  · rw [Int.cast_natCast, habs]

end Finite

/-- Finite numbers are compared as their values are. -/
theorem le_iff {x y : Finite f} :
    (Floating.finite x).le (.finite y) = true ↔ x.value ≤ y.value := by
  have hscale : (0 : ℚ) < 2 ^ (-f.minExponent) := by positivity
  rw [le, decide_eq_true_iff, ← Int.cast_le (R := ℚ), Finite.cast_units, Finite.cast_units,
    mul_le_mul_iff_left₀ hscale]

/-- Finite numbers are equal exactly if their values are. -/
theorem equal_iff {x y : Finite f} :
    (Floating.finite x).equal (.finite y) = true ↔ x.value = y.value := by
  have hscale : (2 : ℚ) ^ (-f.minExponent) ≠ 0 := by positivity
  rw [equal, decide_eq_true_iff, ← Int.cast_inj (α := ℚ), Finite.cast_units, Finite.cast_units,
    mul_left_inj' hscale]

/-- A finite number is below another exactly if its value is. -/
theorem lt_iff {x y : Finite f} :
    (Floating.finite x).lt (.finite y) = true ↔ x.value < y.value := by
  rw [lt, Bool.and_eq_true, Bool.not_eq_true', ← Bool.not_eq_true, equal_iff, le_iff,
    lt_iff_le_and_ne]

/-! ## What is left of a number -/

/-- What is at least as large as the least positive number is not rounded to zero. -/
theorem value_ne_zero_of_round {negative : Bool} {r : Fraction} {x : Finite f}
    (hprecision : 2 ≤ f.precision) (hr : 2 ^ f.minExponent ≤ r.toRat)
    (hx : round f negative r = .finite x) : x.value ≠ 0 := by
  have hleast : (0 : ℚ) < 2 ^ f.minExponent := by positivity
  have hcanonical : f.Canonical 1 f.minExponent :=
    ⟨Nat.one_lt_two_pow (by omega), le_rfl, f.minExponent_le, Or.inr rfl⟩
  have hmagnitude : (⟨negative, 1, _, hcanonical⟩ : Finite f).magnitude.toRat =
      2 ^ f.minExponent := by
    rw [Finite.toRat_magnitude, Nat.cast_one, one_mul]
  intro hzero
  -- the least positive number would be nearer
  have hnearest := (round_nearest hprecision hx ⟨negative, 1, _, hcanonical⟩).1
  rw [hmagnitude, ← x.abs_value, hzero, abs_zero, zero_sub, abs_neg,
    abs_of_nonneg (hleast.le.trans hr), abs_of_nonpos (by linarith)] at hnearest
  linarith

/-- A number without its whole part is not below the least positive number, unless it is zero. -/
theorem least_le_fract {x : Finite f} (h : x.magnitude.fract.num ≠ 0) :
    2 ^ f.minExponent ≤ x.magnitude.fract.toRat := by
  have hden : x.magnitude.fract.den = Nat.pow 2 (-x.exponent).toNat := Nat.one_mul _
  have hbelow : x.exponent < 0 := by
    by_contra hnonneg
    have hdigits : (-x.exponent).toNat = 0 := by omega
    have hone : x.magnitude.den = 1 := hden.trans (by rw [hdigits])
    refine h ?_
    show x.magnitude.num % x.magnitude.den = 0
    rw [hone, Nat.mod_one]
  have hstep : (1 : ℚ) / x.magnitude.fract.den = 2 ^ x.exponent := by
    rw [hden, Nat.pow_eq, Nat.cast_pow, Nat.cast_ofNat, ← zpow_natCast,
      Int.toNat_of_nonneg (by omega), zpow_neg, one_div, inv_inv]
  have hpart : (1 : ℚ) ≤ x.magnitude.fract.num := by
    exact_mod_cast Nat.one_le_iff_ne_zero.2 h
  calc (2 : ℚ) ^ f.minExponent ≤ 2 ^ x.exponent :=
        zpow_le_zpow_right₀ one_le_two x.canonical.2.1
    _ = 1 / x.magnitude.fract.den := hstep.symm
    _ ≤ x.magnitude.fract.toRat :=
        div_le_div_of_nonneg_right hpart x.magnitude.fract.den_cast_pos.le

/-- Nothing is left of a number without its whole part exactly if the number is an integer. -/
theorem fract_equal_zero_iff (hprecision : 2 ≤ f.precision) (x : Finite f) :
    (Floating.finite x).fract.equal zero = true ↔ x.value = x.trunc := by
  have hwhole : x.value = x.trunc ↔ x.magnitude.fract.num = 0 := by
    rw [← Finite.toInt?_eq_some_iff, Finite.toInt?_eq]
    split <;> simp [*]
  rw [hwhole, fract]
  constructor
  · intro h
    by_contra hnum
    cases hround : round f x.negative x.magnitude.fract with
    | finite y =>
      rw [hround, zero, equal_iff, Finite.value_zero] at h
      exact value_ne_zero_of_round hprecision (least_le_fract hnum) hround h
    | infinite negative =>
      rw [hround] at h
      cases h
    | nan negative =>
      rw [hround] at h
      cases h
  · intro hnum
    rw [round, if_pos hnum, zero, equal_iff, Finite.value_zero, Finite.value_zero]

end DocumentSchema.Floating
