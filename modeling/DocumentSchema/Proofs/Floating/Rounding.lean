import DocumentSchema.Floating.Rounding
import DocumentSchema.Proofs.Fraction

/-!
# Rounding what a format can hold

Rounding fixes every number of the format (`round_eq`): a fraction with the value of a finite number
rounds to that number, because canonical mantissas leave no choice of exponent. An integer of no
more digits than the format has is therefore kept as it is (`exists_ofInt`), and no integer of a
JSON tree is so large that it rounds to infinity (`isFinite_ofInt`).
-/

set_option autoImplicit false

namespace DocumentSchema.Floating

variable {f : Format}

namespace Finite

/-- The absolute value of a finite number as a rational number. -/
theorem toRat_magnitude (x : Finite f) :
    x.magnitude.toRat = (x.mantissa : ℚ) * 2 ^ x.exponent := by
  rw [magnitude, Fraction.toRat_scaleTwo, Fraction.toRat_ofNat]

/-- Without a mantissa a number is zero with its sign. -/
theorem eq_zero_of_mantissa {x : Finite f} (h : x.mantissa = 0) : x = zero x.negative := by
  obtain ⟨negative, mantissa, exponent, canonical⟩ := x
  obtain rfl : mantissa = 0 := h
  obtain ⟨_, _, _, hnormal | hleast⟩ := canonical
  · exact absurd hnormal (by simp)
  · subst hleast
    rfl

/-- The binade of a canonical number determines its exponent. -/
theorem exponent_eq {x : Finite f} (hprecision : 0 < f.precision) (h : x.mantissa ≠ 0) {r : Fraction}
    (hr : r.toRat = x.magnitude.toRat) :
    max f.minExponent (r.log2 - f.precision + 1) = x.exponent := by
  obtain ⟨hbound, hmin, hmax, hdigits⟩ := x.canonical
  have hlog : r.log2 = (x.mantissa.log2 : Int) + x.exponent := by
    have hlow : (2 : ℚ) ^ x.mantissa.log2 ≤ x.mantissa := by exact_mod_cast Nat.log2_self_le h
    have hhigh : (x.mantissa : ℚ) < 2 ^ (x.mantissa.log2 + 1) := by
      exact_mod_cast Nat.lt_log2_self
    have hpow : (0 : ℚ) < 2 ^ x.exponent := by positivity
    apply Fraction.log2_eq
    · rw [hr, toRat_magnitude, zpow_add₀ two_ne_zero, zpow_natCast]
      exact mul_le_mul_of_nonneg_right hlow hpow.le
    · rw [hr, toRat_magnitude, show (x.mantissa.log2 : Int) + x.exponent + 1 =
        ((x.mantissa.log2 + 1 : Nat) : Int) + x.exponent by push_cast; ring,
        zpow_add₀ two_ne_zero, zpow_natCast]
      exact mul_lt_mul_of_pos_right hhigh hpow
  have hle : x.mantissa.log2 < f.precision := (Nat.log2_lt h).2 (by simpa using hbound)
  cases hdigits with
  | inl hnormal =>
    have hge : f.precision - 1 ≤ x.mantissa.log2 := (Nat.le_log2 h).2 (by simpa using hnormal)
    omega
  | inr hleast => omega

end Finite

/-- What has the value of a number is rounded to that number. -/
theorem round_eq {x : Finite f} (hprecision : 0 < f.precision) {r : Fraction}
    (hr : r.toRat = x.magnitude.toRat) : round f x.negative r = .finite x := by
  by_cases hm : x.mantissa = 0
  · have hnum : r.num = 0 := by
      rw [← Fraction.toRat_eq_zero, hr, Finite.toRat_magnitude, hm]
      simp
    rw [round, if_pos hnum, ← Finite.eq_zero_of_mantissa hm]
  · have hnum : r.num ≠ 0 := by
      intro hzero
      rw [← Fraction.toRat_eq_zero, hr, Finite.toRat_magnitude] at hzero
      have hmantissa : (x.mantissa : ℚ) ≠ 0 := by exact_mod_cast hm
      exact mul_ne_zero hmantissa (zpow_ne_zero _ two_ne_zero) hzero
    have hscaled : (r.scaleTwo (-x.exponent)).nearestEven = x.mantissa := by
      apply Fraction.nearestEven_eq
      rw [Fraction.toRat_scaleTwo, hr, Finite.toRat_magnitude, mul_assoc, ← zpow_add₀ two_ne_zero]
      simp
    have hcarry : x.mantissa ≠ Nat.pow 2 f.precision := Nat.ne_of_lt x.canonical.1
    rw [round, if_neg hnum]
    simp only [Finite.exponent_eq hprecision hm hr, hscaled, assemble, hcarry, if_false,
      dif_pos x.canonical]

/-- A positive fraction is rounded on the grid of its binade, or on the finest grid of the format. -/
theorem round_eq_assemble {r : Fraction} (hnum : r.num ≠ 0) (negative : Bool) {e : Int}
    (he : e = max f.minExponent (r.log2 - f.precision + 1)) :
    round f negative r = assemble f negative (r.scaleTwo (-e)).nearestEven e := by
  rw [round, if_neg hnum, he]

/-- On its grid a positive fraction has at most as many digits as the format, and all of them unless
the grid is the finest one. -/
theorem scaled_digits {r : Fraction} (hprecision : 0 < f.precision) (hnum : r.num ≠ 0) {e : Int}
    (he : e = max f.minExponent (r.log2 - f.precision + 1)) :
    (r.scaleTwo (-e)).nearestEven ≤ Nat.pow 2 f.precision ∧
      (Nat.pow 2 (f.precision - 1) ≤ (r.scaleTwo (-e)).nearestEven ∨ e = f.minExponent) := by
  obtain ⟨hlow, hhigh⟩ := Fraction.log2_bounds hnum
  have hscaled : (r.scaleTwo (-e)).toRat = r.toRat * 2 ^ (-e) := Fraction.toRat_scaleTwo r (-e)
  have hpow : (0 : ℚ) < 2 ^ (-e) := by positivity
  constructor
  · apply Fraction.nearestEven_le
    rw [hscaled, Nat.pow_eq]
    push_cast
    calc r.toRat * 2 ^ (-e) ≤ 2 ^ (r.log2 + 1) * 2 ^ (-e) := by
          exact mul_le_mul_of_nonneg_right hhigh.le hpow.le
      _ = 2 ^ (r.log2 + 1 + -e) := (zpow_add₀ two_ne_zero _ _).symm
      _ ≤ 2 ^ (f.precision : Int) := zpow_le_zpow_right₀ one_le_two (by omega)
      _ = 2 ^ f.precision := zpow_natCast 2 f.precision
  · by_cases hleast : e = f.minExponent
    · exact Or.inr hleast
    · refine Or.inl (Fraction.le_nearestEven ?_)
      rw [hscaled, Nat.pow_eq]
      push_cast
      calc (2 : ℚ) ^ (f.precision - 1) = 2 ^ (((f.precision - 1 : Nat)) : Int) :=
            (zpow_natCast 2 _).symm
        _ = 2 ^ (r.log2 + -e) := by congr 1; omega
        _ = 2 ^ r.log2 * 2 ^ (-e) := zpow_add₀ two_ne_zero _ _
        _ ≤ r.toRat * 2 ^ (-e) := mul_le_mul_of_nonneg_right hlow hpow.le

/-- Digits are a number of the format if the exponent, one higher after a carry, is in range. -/
theorem exists_assemble (hprecision : 0 < f.precision) (negative : Bool) {mantissa : Nat}
    {exponent : Int} (hdigits : mantissa ≤ Nat.pow 2 f.precision)
    (hleading : Nat.pow 2 (f.precision - 1) ≤ mantissa ∨ exponent = f.minExponent)
    (hmin : f.minExponent ≤ exponent) (hmax : exponent ≤ f.maxExponent)
    (hcarry : mantissa = Nat.pow 2 f.precision → exponent < f.maxExponent) :
    ∃ x : Finite f, assemble f negative mantissa exponent = .finite x ∧ x.negative = negative := by
  by_cases hfull : mantissa = Nat.pow 2 f.precision
  · have hroom := hcarry hfull
    have hcanonical : f.Canonical (Nat.pow 2 (f.precision - 1)) (exponent + 1) := by
      refine ⟨?_, by omega, by omega, Or.inl le_rfl⟩
      exact Nat.pow_lt_pow_right one_lt_two (by omega)
    refine ⟨⟨negative, _, _, hcanonical⟩, ?_, rfl⟩
    simp only [assemble, hfull, if_true, dif_pos hcanonical]
  · have hcanonical : f.Canonical mantissa exponent :=
      ⟨lt_of_le_of_ne hdigits hfull, hmin, hmax, hleading⟩
    refine ⟨⟨negative, _, _, hcanonical⟩, ?_, rfl⟩
    simp only [assemble, hfull, if_false, dif_pos hcanonical]

/-- A fraction below the last binade of the format rounds to a finite number. -/
theorem exists_round {r : Fraction} (hprecision : 0 < f.precision)
    (hexponents : f.minExponent < f.maxExponent) (negative : Bool)
    (hr : r.toRat < 2 ^ (f.maxExponent + f.precision - 1)) :
    ∃ x : Finite f, round f negative r = .finite x ∧ x.negative = negative := by
  by_cases hnum : r.num = 0
  · exact ⟨Finite.zero negative, by rw [round, if_pos hnum], rfl⟩
  have hlog : r.log2 < f.maxExponent + f.precision - 1 :=
    (zpow_lt_zpow_iff_right₀ one_lt_two).1 (lt_of_le_of_lt (Fraction.log2_bounds hnum).1 hr)
  obtain ⟨hdigits, hleading⟩ := scaled_digits (f := f) hprecision hnum rfl
  rw [round_eq_assemble hnum negative rfl]
  exact exists_assemble hprecision negative hdigits hleading (by omega) (by omega) (by omega)

/-- A finite number of given digits has them, or one digit less after a carry. -/
theorem assemble_eq_finite {negative : Bool} {mantissa : Nat} {exponent : Int} {x : Finite f}
    (h : assemble f negative mantissa exponent = .finite x) :
    x.negative = negative ∧
      (x.mantissa = mantissa ∧ x.exponent = exponent ∨
        mantissa = Nat.pow 2 f.precision ∧ x.mantissa = Nat.pow 2 (f.precision - 1) ∧
          x.exponent = exponent + 1) := by
  by_cases hcarry : mantissa = Nat.pow 2 f.precision
  · simp only [assemble, hcarry, if_true] at h
    split at h
    · obtain rfl := Floating.finite.inj h
      exact ⟨rfl, Or.inr ⟨hcarry, rfl, rfl⟩⟩
    · contradiction
  · simp only [assemble, hcarry, if_false] at h
    split at h
    · obtain rfl := Floating.finite.inj h
      exact ⟨rfl, Or.inl ⟨rfl, rfl⟩⟩
    · contradiction

/-- Halving a mantissa that grew by one digit keeps the value. -/
theorem magnitude_assemble {negative : Bool} {mantissa : Nat} {exponent : Int} {x : Finite f}
    (hprecision : 0 < f.precision) (h : assemble f negative mantissa exponent = .finite x) :
    x.magnitude.toRat = mantissa * 2 ^ exponent := by
  rw [Finite.toRat_magnitude]
  rcases (assemble_eq_finite h).2 with ⟨hmantissa, hexponent⟩ | ⟨hcarry, hmantissa, hexponent⟩
  · rw [hmantissa, hexponent]
  · have hhalf : (2 : ℚ) ^ f.precision = 2 ^ (f.precision - 1) * 2 := by
      rw [← pow_succ, Nat.sub_add_cancel hprecision]
    rw [hcarry, hmantissa, hexponent, Nat.pow_eq, Nat.pow_eq]
    push_cast
    rw [hhalf, zpow_add₀ two_ne_zero, zpow_one]
    ring

/-- Rounding stays at or below a power of two. -/
theorem round_le_pow {negative : Bool} {r : Fraction} {k : Int} {x : Finite f}
    (hprecision : 0 < f.precision) (hk : f.minExponent ≤ k) (hr : r.toRat ≤ 2 ^ k)
    (hx : round f negative r = .finite x) : x.magnitude.toRat ≤ 2 ^ k := by
  have hpositive : (0 : ℚ) < 2 ^ k := by positivity
  rw [round] at hx
  split at hx
  · obtain rfl := Floating.finite.inj hx
    rw [Finite.toRat_magnitude]
    simpa [Finite.zero] using hpositive.le
  · rename_i hnum
    have hlog : r.log2 ≤ k :=
      (zpow_le_zpow_iff_right₀ one_lt_two).1 ((Fraction.log2_bounds hnum).1.trans hr)
    simp only at hx
    rw [magnitude_assemble hprecision hx]
    set e := max f.minExponent (r.log2 - f.precision + 1) with he
    have hexponent : e ≤ k := by omega
    have hsplit : (2 : ℚ) ^ k = (Nat.pow 2 (k - e).toNat : Nat) * 2 ^ e := by
      rw [Nat.pow_eq]
      push_cast
      rw [← zpow_natCast, Int.toNat_of_nonneg (by omega), ← zpow_add₀ two_ne_zero, sub_add_cancel]
    have hmantissa : (r.scaleTwo (-e)).nearestEven ≤ Nat.pow 2 (k - e).toNat := by
      apply Fraction.nearestEven_le
      rw [Fraction.toRat_scaleTwo, zpow_neg, ← div_eq_mul_inv, div_le_iff₀ (by positivity), ← hsplit]
      exact hr
    rw [hsplit]
    exact mul_le_mul_of_nonneg_right (by exact_mod_cast hmantissa) (by positivity)

/-- A quotient by four or more, rounded, stays below the dividend: there is a power of two between
them. -/
theorem round_quotient_lt {negative : Bool} {r : Fraction} {n k : Nat} {x : Finite64}
    (hn : n ≠ 0) (hk : 4 ≤ k) (hr : r.toRat = n / k) (hx : round .binary64 negative r = .finite x) :
    x.magnitude.toRat < n := by
  set e : Int := (n.log2 : Int) - 1 with he
  have hpower : (0 : ℚ) < 2 ^ e := by positivity
  have hlow : (2 : ℚ) ^ e * 2 ≤ n := by
    have hexponent : e + 1 = n.log2 := by omega
    rw [← zpow_add_one₀ two_ne_zero, hexponent, zpow_natCast]
    exact_mod_cast Nat.log2_self_le hn
  have hhigh : (n : ℚ) < 2 ^ e * 4 := by
    have hexponent : e + 2 = ((n.log2 + 1 : Nat) : Int) := by push_cast; omega
    have hlt : (n : ℚ) < 2 ^ (e + 2) := by
      rw [hexponent, zpow_natCast]
      exact_mod_cast Nat.lt_log2_self
    calc (n : ℚ) < 2 ^ (e + 2) := hlt
      _ = 2 ^ e * 4 := by rw [zpow_add₀ two_ne_zero]; norm_num
  have hquotient : r.toRat ≤ 2 ^ e := by
    have hk' : (4 : ℚ) ≤ k := by exact_mod_cast hk
    rw [hr, div_le_iff₀ (by linarith)]
    calc (n : ℚ) ≤ 2 ^ e * 4 := hhigh.le
      _ ≤ 2 ^ e * k := mul_le_mul_of_nonneg_left hk' hpower.le
  have hround : x.magnitude.toRat ≤ 2 ^ e :=
    round_le_pow (by decide) (by simp only [Format.binary64]; omega) hquotient hx
  linarith

/-- Every natural number of at most 53 digits is a number of double precision. -/
theorem exists_magnitude (negative : Bool) {n : Nat} (h : n < 9007199254740992) :
    ∃ x : Finite64, x.negative = negative ∧ x.magnitude.toRat = n := by
  by_cases hn : n = 0
  · refine ⟨Finite.zero negative, rfl, ?_⟩
    rw [Finite.toRat_magnitude, hn]
    simp [Finite.zero]
  -- the leading digit of the mantissa is the leading digit of the number
  have hlog : n.log2 < 53 := (Nat.log2_lt hn).2 (by simpa using h)
  have hlow : 2 ^ n.log2 ≤ n := Nat.log2_self_le hn
  have hhigh : n < 2 ^ (n.log2 + 1) := Nat.lt_log2_self
  set k := 52 - n.log2 with hk
  have hcanonical : Format.binary64.Canonical (n * Nat.pow 2 k) (-(k : Int)) := by
    refine ⟨?_, by simp only [Format.binary64]; omega, by simp only [Format.binary64]; omega,
      Or.inl ?_⟩
    · show n * 2 ^ k < 2 ^ 53
      calc n * 2 ^ k < 2 ^ (n.log2 + 1) * 2 ^ k :=
            Nat.mul_lt_mul_of_pos_right hhigh (Nat.two_pow_pos k)
        _ = 2 ^ 53 := by rw [← pow_add]; congr 1; omega
    · show 2 ^ 52 ≤ n * 2 ^ k
      calc 2 ^ 52 = 2 ^ n.log2 * 2 ^ k := by rw [← pow_add]; congr 1; omega
        _ ≤ n * 2 ^ k := Nat.mul_le_mul_right _ hlow
  refine ⟨⟨negative, _, _, hcanonical⟩, rfl, ?_⟩
  rw [Finite.toRat_magnitude]
  show ((n * 2 ^ k : Nat) : ℚ) * 2 ^ (-(k : Int)) = n
  push_cast
  rw [mul_assoc, zpow_neg, zpow_natCast, mul_inv_cancel₀ (by positivity), mul_one]

/-- An integer of at most 53 digits becomes a number with its value. -/
theorem exists_ofInt {i : Int} (h : i.natAbs < 9007199254740992) :
    ∃ x : Finite64, ofInt .binary64 i = .finite x ∧ x.negative = decide (i < 0) ∧
      x.magnitude.toRat = i.natAbs := by
  obtain ⟨x, hnegative, hvalue⟩ := exists_magnitude (decide (i < 0)) h
  refine ⟨x, ?_, hnegative, hvalue⟩
  rw [ofInt, ← hnegative]
  exact round_eq (by decide) (by rw [Fraction.toRat_ofNat, hvalue])

/-- A floating-point number that is finite is a finite number. -/
theorem exists_of_isFinite {x : Floating f} (h : x.isFinite = true) :
    ∃ y : Finite f, x = .finite y := by
  cases x with
  | finite y => exact ⟨y, rfl⟩
  | infinite negative => cases h
  | nan negative => cases h

/-- An integer below the largest numbers of double precision becomes a finite number. -/
theorem isFinite_ofInt {i : Int} (h : i.natAbs < 2 ^ 64) :
    (ofInt .binary64 i).isFinite = true := by
  have hbound : (Fraction.ofNat i.natAbs).toRat < 2 ^ ((971 : Int) + (53 : Nat) - 1) := by
    rw [Fraction.toRat_ofNat]
    calc ((i.natAbs : Nat) : ℚ) < 2 ^ 64 := by exact_mod_cast h
      _ = 2 ^ (64 : Int) := by norm_num
      _ ≤ 2 ^ ((971 : Int) + (53 : Nat) - 1) := zpow_le_zpow_right₀ one_le_two (by norm_num)
  obtain ⟨x, hx, _⟩ := exists_round (f := .binary64) (by decide) (by decide) (i < 0) hbound
  rw [ofInt, hx]
  rfl

namespace Finite

/-- The sign of an integer put on its absolute value gives the integer. -/
theorem withSign_natAbs {x : Finite f} {i : Int} (h : x.negative = decide (i < 0)) :
    x.withSign i.natAbs = i := by
  rw [withSign, h]
  by_cases hi : i < 0
  · rw [decide_eq_true hi, if_pos rfl]
    omega
  · rw [decide_eq_false hi, if_neg Bool.false_ne_true]
    omega

/-- A number with the value of an integer is nearest to that integer. -/
theorem nearestInt_eq {x : Finite f} {i : Int} (hsign : x.negative = decide (i < 0))
    (hvalue : x.magnitude.toRat = i.natAbs) : x.nearestInt = i := by
  rw [nearestInt, Fraction.nearestUp_eq hvalue, withSign_natAbs hsign]

end Finite

/-- The nearest integer to what an integer of at most 53 digits becomes is that integer. -/
theorem nearestInt_ofInt {i : Int} (h : i.natAbs < 9007199254740992) :
    (ofInt .binary64 i).toFinite?.map Finite.nearestInt = some i := by
  obtain ⟨x, hx, hsign, hvalue⟩ := exists_ofInt h
  rw [hx]
  exact congrArg some (Finite.nearestInt_eq hsign hvalue)

end DocumentSchema.Floating
