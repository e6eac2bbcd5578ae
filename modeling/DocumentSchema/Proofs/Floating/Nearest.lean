import DocumentSchema.Proofs.Floating.Error

/-!
# The nearest number of a format

Rounding gives the number of the format that is nearest to a fraction, and of two that are equally
near the one whose last digit is even (`Finite.NearestTo`). Numbers of a finer grid lie below the
binade of the fraction, so that only those of its own grid can be as near. There is a limit, half a
step above the largest number, from which on there is no such number (`isFinite_round_iff`). A
conversion to another format does one or the other to each finite number (`becomes_convert`).
-/

set_option autoImplicit false

namespace DocumentSchema

/-- Half a step above the largest number of the format; from here on rounding gives infinity. -/
def Format.limit (f : Format) : ℚ := (2 ^ f.precision - 1 / 2) * 2 ^ f.maxExponent

/-- Single precision ends half a step above its largest number. -/
theorem Format.limit_binary32 : Format.binary32.limit = 2 ^ 128 - 2 ^ 103 := by
  norm_num [Format.limit, Format.binary32]

namespace Fraction

variable {r : Fraction}

/-- Where the nearest integer is one half away it is even. -/
theorem nearestEven_even (h : |(r.nearestEven : ℚ) - r.toRat| = 1 / 2) : r.nearestEven % 2 = 0 := by
  have hden := r.den_cast_pos
  have hmiddle : ((r.num % r.den : Nat) : ℚ) / r.den = 1 / 2 → 2 * (r.num % r.den) = r.den := by
    intro hhalf
    rw [div_eq_div_iff hden.ne' two_ne_zero] at hhalf
    have hcast : (2 : ℚ) * ((r.num % r.den : Nat) : ℚ) = r.den := by linarith
    exact_mod_cast hcast
  have hpart : (0 : ℚ) ≤ ((r.num % r.den : Nat) : ℚ) / r.den := by positivity
  rw [toRat_eq_floor_add] at h
  simp only [nearestEven] at h ⊢
  split at h
  · rename_i hbelow
    have hhalf : ((r.num % r.den : Nat) : ℚ) / r.den = 1 / 2 := by
      rw [sub_add_cancel_left, abs_neg, abs_of_nonneg hpart] at h
      exact h
    exact absurd (hmiddle hhalf) hbelow.ne
  · rename_i hnotBelow
    split at h
    · rename_i habove
      have hproper : ((r.num % r.den : Nat) : ℚ) / r.den < 1 := by
        rw [div_lt_one hden]
        exact_mod_cast Nat.mod_lt _ r.den_pos
      have hhalf : ((r.num % r.den : Nat) : ℚ) / r.den = 1 / 2 := by
        push_cast at h
        rw [add_sub_add_left_eq_sub, abs_of_pos (by linarith)] at h
        linarith
      exact absurd (hmiddle hhalf) habove.ne'
    · rename_i hnotAbove
      rw [if_neg hnotBelow, if_neg hnotAbove]
      split <;> omega

/-- No natural number is nearer than the one that rounding gives, and if another one is as near then
that one is even. -/
theorem nearestEven_nearest (n : Nat) :
    |(r.nearestEven : ℚ) - r.toRat| ≤ |(n : ℚ) - r.toRat| ∧
      (|(n : ℚ) - r.toRat| = |(r.nearestEven : ℚ) - r.toRat| →
        n = r.nearestEven ∨ r.nearestEven % 2 = 0) := by
  by_cases hsame : n = r.nearestEven
  · rw [hsame]
    exact ⟨le_rfl, fun _ => Or.inl rfl⟩
  have herror := nearestEven_error r
  have hstep : (1 : ℚ) ≤ |(n : ℚ) - r.nearestEven| := by
    have hne : (n : Int) - r.nearestEven ≠ 0 := by omega
    have hint : (1 : Int) ≤ |(n : Int) - r.nearestEven| := Int.one_le_abs hne
    exact_mod_cast hint
  have hthrough : |(n : ℚ) - r.nearestEven| ≤
      |(n : ℚ) - r.toRat| + |(r.nearestEven : ℚ) - r.toRat| := by
    rw [abs_sub_comm (r.nearestEven : ℚ)]
    exact abs_sub_le _ _ _
  constructor
  · linarith
  · intro htie
    have hhalf : |(r.nearestEven : ℚ) - r.toRat| = 1 / 2 := by linarith
    exact Or.inr (nearestEven_even hhalf)

/-- Rounding stays below an even number up to half a step below it. -/
theorem nearestEven_lt_iff {n : Nat} (heven : n % 2 = 0) :
    r.nearestEven < n ↔ r.toRat < n - 1 / 2 := by
  obtain ⟨hlow, hhigh⟩ := abs_le.1 (nearestEven_error r)
  constructor
  · intro hlt
    have hle : (r.nearestEven : ℚ) ≤ n - 1 := by
      have hsucc : r.nearestEven + 1 ≤ n := hlt
      have hcast : (r.nearestEven : ℚ) + 1 ≤ n := by exact_mod_cast hsucc
      linarith
    refine lt_of_le_of_ne (by linarith) ?_
    intro hedge
    -- the only integer so near is odd
    have hlast : (r.nearestEven : ℚ) = n - 1 := by linarith
    have hhalf : |(r.nearestEven : ℚ) - r.toRat| = 1 / 2 := by
      rw [hlast, hedge, abs_eq (by norm_num)]
      right
      ring
    have hodd := nearestEven_even hhalf
    have hcast : (r.nearestEven : ℚ) + 1 = n := by linarith
    have hsucc : r.nearestEven + 1 = n := by exact_mod_cast hcast
    omega
  · intro hlt
    have hcast : (r.nearestEven : ℚ) < n := by linarith
    exact_mod_cast hcast

end Fraction

namespace Floating

variable {f g : Format} {negative : Bool} {r : Fraction}

namespace Finite

/-- The number with its sign as a rational number. -/
def value (x : Finite f) : ℚ := if x.negative then -x.magnitude.toRat else x.magnitude.toRat

/-- A magnitude is not negative. -/
theorem magnitude_nonneg (x : Finite f) : 0 ≤ x.magnitude.toRat := by
  rw [toRat_magnitude]
  positivity

/-- The absolute value of a number is its magnitude. -/
theorem abs_value (x : Finite f) : |x.value| = x.magnitude.toRat := by
  unfold value
  split
  · rw [abs_neg, abs_of_nonneg x.magnitude_nonneg]
  · exact abs_of_nonneg x.magnitude_nonneg

/-- Zero of either sign has no magnitude. -/
theorem magnitude_zero (negative : Bool) : (zero negative : Finite f).magnitude.toRat = 0 := by
  rw [toRat_magnitude]
  simp [zero]

/-- Numbers of one sign are as far apart as their absolute values. -/
theorem abs_value_sub {x : Finite g} {y : Finite f} (h : y.negative = x.negative) :
    |y.value - x.value| = |y.magnitude.toRat - x.magnitude.toRat| := by
  unfold value
  rw [h]
  cases x.negative with
  | true =>
    rw [if_pos rfl, if_pos rfl, neg_sub_neg, abs_sub_comm]
  | false => rfl

/-- Numbers of different signs are as far apart as they are from zero together. -/
theorem abs_value_sub_of_ne {x : Finite g} {y : Finite f} (h : y.negative ≠ x.negative) :
    |y.value - x.value| = y.magnitude.toRat + x.magnitude.toRat := by
  have hx := x.magnitude_nonneg
  have hy := y.magnitude_nonneg
  unfold value
  cases hsign : x.negative with
  | true =>
    have hpositive : y.negative = false := by
      rw [hsign] at h
      simpa using h
    simp only [hpositive, Bool.false_eq_true, if_false, if_true, sub_neg_eq_add]
    exact abs_of_nonneg (by linarith)
  | false =>
    have hnegative : y.negative = true := by
      rw [hsign] at h
      simpa using h
    simp only [hnegative, Bool.false_eq_true, if_false, if_true]
    rw [← neg_add', abs_neg]
    exact abs_of_nonneg (by linarith)

/-- No number of the format is nearer to the other number, which has the same sign, and if another
one is as near then the mantissa of this one is even. -/
structure NearestTo (x : Finite g) (y : Finite f) : Prop where
  sign : y.negative = x.negative
  nearest : ∀ z : Finite f, |y.value - x.value| ≤ |z.value - x.value|
  even : ∀ z : Finite f, |z.value - x.value| = |y.value - x.value| →
    z.value = y.value ∨ y.mantissa % 2 = 0

/-- What a finite number is in a format: the nearest number, or an infinity from the limit on. -/
inductive Becomes (x : Finite g) : Floating f → Prop
  | nearest {y : Finite f} (hbelow : |x.value| < f.limit) (h : NearestTo x y) :
      Becomes x (.finite y)
  | beyond (hlimit : f.limit ≤ |x.value|) : Becomes x (.infinite x.negative)

/-- A number whose last digit is not below a grid is on the grid. -/
theorem exists_multiple {z : Finite f} {e : Int} (he : e ≤ z.exponent) :
    ∃ n : Nat, z.magnitude.toRat = n * 2 ^ e := by
  refine ⟨z.mantissa * 2 ^ (z.exponent - e).toNat, ?_⟩
  rw [toRat_magnitude]
  push_cast
  rw [mul_assoc, ← zpow_natCast, Int.toNat_of_nonneg (by omega), ← zpow_add₀ two_ne_zero,
    sub_add_cancel]

/-- A number whose last digit is below a grid has all its digits below a binade of the grid. -/
theorem magnitude_lt {z : Finite f} {e : Int} (he : z.exponent < e) :
    z.magnitude.toRat < 2 ^ (e + f.precision - 1) := by
  have hdigits : (z.mantissa : ℚ) < 2 ^ f.precision := by exact_mod_cast z.canonical.1
  have hpow : (0 : ℚ) < 2 ^ z.exponent := by positivity
  rw [toRat_magnitude]
  calc (z.mantissa : ℚ) * 2 ^ z.exponent < 2 ^ f.precision * 2 ^ z.exponent :=
        mul_lt_mul_of_pos_right hdigits hpow
    _ = 2 ^ (f.precision + z.exponent) := by rw [zpow_add₀ two_ne_zero, zpow_natCast]
    _ ≤ 2 ^ (e + f.precision - 1) := zpow_le_zpow_right₀ one_le_two (by omega)

end Finite

/-! ## Rounding to the nearest number -/

/-- An even mantissa stays even when a carry halves it. -/
theorem even_assemble {mantissa : Nat} {exponent : Int} {x : Finite f} (hprecision : 2 ≤ f.precision)
    (h : assemble f negative mantissa exponent = .finite x) (heven : mantissa % 2 = 0) :
    x.mantissa % 2 = 0 := by
  rcases (assemble_eq_finite h).2 with ⟨hmantissa, _⟩ | ⟨_, hmantissa, _⟩
  · rwa [hmantissa]
  · have hsucc : f.precision - 1 = (f.precision - 2) + 1 := by omega
    rw [hmantissa, Nat.pow_eq, hsucc, pow_succ, Nat.mul_mod_left]

/-- Rounding gives a number the sign that it was told. -/
theorem negative_round {x : Finite f} (hx : round f negative r = .finite x) :
    x.negative = negative := by
  rw [round] at hx
  split at hx
  · obtain rfl := Floating.finite.inj hx
    rfl
  · exact (assemble_eq_finite hx).1

/-- Numbers of a finer grid than that of a fraction are further away than the nearest one of its
grid: they end below its binade, and the binade starts on the grid. -/
theorem nearer_than_finer (hprecision : 0 < f.precision) (hnum : r.num ≠ 0) {e : Int}
    (he : e = max f.minExponent (r.log2 - f.precision + 1)) {z : Finite f} (hfine : z.exponent < e) :
    |((r.scaleTwo (-e)).nearestEven : ℚ) * 2 ^ e - r.toRat| < |z.magnitude.toRat - r.toRat| := by
  have hmin := z.canonical.2.1
  have hexponent : e + f.precision - 1 = r.log2 := by omega
  have hbelow := Finite.magnitude_lt hfine
  rw [hexponent] at hbelow
  have hlow := (Fraction.log2_bounds hnum).1
  have hstart : ((2 ^ (f.precision - 1) : Nat) : ℚ) * 2 ^ e = 2 ^ r.log2 := by
    push_cast
    rw [← zpow_natCast, ← zpow_add₀ two_ne_zero]
    congr 1
    omega
  have hstep : (0 : ℚ) < 2 ^ e := by positivity
  have hnearest := (Fraction.nearestEven_nearest (r := r.scaleTwo (-e)) (2 ^ (f.precision - 1))).1
  calc |((r.scaleTwo (-e)).nearestEven : ℚ) * 2 ^ e - r.toRat|
      = |((r.scaleTwo (-e)).nearestEven : ℚ) - (r.scaleTwo (-e)).toRat| * 2 ^ e :=
        Fraction.abs_multiple_sub r e _
    _ ≤ |((2 ^ (f.precision - 1) : Nat) : ℚ) - (r.scaleTwo (-e)).toRat| * 2 ^ e :=
        mul_le_mul_of_nonneg_right hnearest hstep.le
    _ = |2 ^ r.log2 - r.toRat| := by rw [← Fraction.abs_multiple_sub, hstart]
    _ = r.toRat - 2 ^ r.log2 := by rw [abs_of_nonpos (by linarith), neg_sub]
    _ < r.toRat - z.magnitude.toRat := by linarith
    _ = |z.magnitude.toRat - r.toRat| := by rw [abs_of_nonpos (by linarith), neg_sub]

/-- No absolute value of the format is nearer to a fraction than the one it is rounded to, and if
another one is as near then the mantissa of this one is even. -/
theorem round_nearest {x : Finite f} (hprecision : 2 ≤ f.precision)
    (hx : round f negative r = .finite x) (z : Finite f) :
    |x.magnitude.toRat - r.toRat| ≤ |z.magnitude.toRat - r.toRat| ∧
      (|z.magnitude.toRat - r.toRat| = |x.magnitude.toRat - r.toRat| →
        z.magnitude.toRat = x.magnitude.toRat ∨ x.mantissa % 2 = 0) := by
  by_cases hnum : r.num = 0
  · rw [round, if_pos hnum] at hx
    obtain rfl := Floating.finite.inj hx
    rw [Finite.magnitude_zero, Fraction.toRat_eq_zero.2 hnum, sub_zero, abs_zero, sub_zero]
    exact ⟨abs_nonneg _, fun h => Or.inl (abs_eq_zero.1 h)⟩
  obtain ⟨e, he⟩ : ∃ e, e = max f.minExponent (r.log2 - f.precision + 1) := ⟨_, rfl⟩
  rw [round_eq_assemble hnum negative he] at hx
  have hstep : (0 : ℚ) < 2 ^ e := by positivity
  rw [magnitude_assemble (by omega) hx]
  rcases le_or_gt e z.exponent with hgrid | hfine
  · obtain ⟨n, hn⟩ := Finite.exists_multiple hgrid
    obtain ⟨hnearest, heven⟩ := Fraction.nearestEven_nearest (r := r.scaleTwo (-e)) n
    rw [hn, Fraction.abs_multiple_sub, Fraction.abs_multiple_sub]
    refine ⟨mul_le_mul_of_nonneg_right hnearest hstep.le, ?_⟩
    intro htie
    rcases heven (mul_right_cancel₀ hstep.ne' htie) with rfl | heven
    · exact Or.inl rfl
    · exact Or.inr (even_assemble hprecision hx heven)
  · have hfar := nearer_than_finer (by omega) hnum he hfine
    exact ⟨hfar.le, fun htie => absurd htie hfar.ne'⟩

/-- Digits are a finite number exactly if their exponent, one higher after a carry, is in range. -/
theorem isFinite_assemble_iff (hprecision : 0 < f.precision) (negative : Bool) {mantissa : Nat}
    {exponent : Int} (hdigits : mantissa ≤ Nat.pow 2 f.precision)
    (hleading : Nat.pow 2 (f.precision - 1) ≤ mantissa ∨ exponent = f.minExponent)
    (hmin : f.minExponent ≤ exponent) :
    (assemble f negative mantissa exponent).isFinite = true ↔
      exponent ≤ f.maxExponent ∧
        (mantissa = Nat.pow 2 f.precision → exponent < f.maxExponent) := by
  constructor
  · intro hfinite
    obtain ⟨x, hx⟩ := exists_of_isFinite hfinite
    have hbelow := x.canonical.1
    have hmax := x.canonical.2.2.1
    rcases (assemble_eq_finite hx).2 with ⟨hmantissa, hexponent⟩ | ⟨_, _, hexponent⟩
    · rw [hmantissa] at hbelow
      exact ⟨hexponent ▸ hmax, fun hfull => absurd hfull hbelow.ne⟩
    · exact ⟨by omega, fun _ => by omega⟩
  · rintro ⟨hmax, hcarry⟩
    obtain ⟨x, hx, _⟩ := exists_assemble hprecision negative hdigits hleading hmin hmax hcarry
    rw [hx]
    rfl

/-- A fraction is rounded to a finite number exactly if it is below the limit of the format. -/
theorem isFinite_round_iff (hprecision : 0 < f.precision) :
    (round f negative r).isFinite = true ↔ r.toRat < f.limit := by
  have hleast : (1 : ℚ) ≤ 2 ^ (f.precision - 1) := one_le_pow₀ one_le_two
  have hdouble : (2 : ℚ) ^ f.precision = 2 ^ (f.precision - 1) * 2 := by
    rw [← pow_succ, Nat.sub_add_cancel hprecision]
  have hlast : (0 : ℚ) < 2 ^ f.maxExponent := by positivity
  have hbelow : (2 : ℚ) ^ (f.precision - 1) * 2 ^ f.maxExponent < f.limit :=
    mul_lt_mul_of_pos_right (by linarith) hlast
  have habove : f.limit < 2 ^ f.precision * 2 ^ f.maxExponent :=
    mul_lt_mul_of_pos_right (by linarith) hlast
  by_cases hnum : r.num = 0
  · rw [round, if_pos hnum, Fraction.toRat_eq_zero.2 hnum]
    exact iff_of_true rfl (lt_trans (by positivity) hbelow)
  obtain ⟨e, he⟩ : ∃ e, e = max f.minExponent (r.log2 - f.precision + 1) := ⟨_, rfl⟩
  obtain ⟨hdigits, hleading⟩ := scaled_digits hprecision hnum he
  obtain ⟨hlow, hhigh⟩ := Fraction.log2_bounds hnum
  rw [round_eq_assemble hnum negative he,
    isFinite_assemble_iff hprecision negative hdigits hleading (by omega)]
  rcases lt_trichotomy e f.maxExponent with hsmall | hequal | hlarge
  · -- before the last grid there is always room for a carry
    refine iff_of_true ⟨hsmall.le, fun _ => hsmall⟩ (lt_trans (lt_of_lt_of_le hhigh ?_) hbelow)
    rw [← zpow_natCast, ← zpow_add₀ two_ne_zero]
    exact zpow_le_zpow_right₀ one_le_two (by omega)
  · -- on the last grid a carry leads out of the format
    have heven : Nat.pow 2 f.precision % 2 = 0 := by
      rw [Nat.pow_eq, ← Nat.sub_add_cancel hprecision, pow_succ, Nat.mul_mod_left]
    have hscaled : (r.scaleTwo (-e)).toRat < (Nat.pow 2 f.precision : Nat) - 1 / 2 ↔
        r.toRat < f.limit := by
      rw [Fraction.toRat_scaleTwo, zpow_neg, ← div_eq_mul_inv, hequal, div_lt_iff₀ hlast,
        Nat.pow_eq, Format.limit]
      push_cast
      exact Iff.rfl
    rw [← hscaled, ← Fraction.nearestEven_lt_iff heven]
    constructor
    · rintro ⟨_, hcarry⟩
      exact lt_of_le_of_ne hdigits fun hfull => (hcarry hfull).ne hequal
    · intro hroom
      exact ⟨hequal.le, fun hfull => absurd hfull hroom.ne⟩
  · refine iff_of_false (fun h => absurd h.1 hlarge.not_ge) ?_
    rw [not_lt]
    refine (habove.le.trans ?_).trans hlow
    have hmin := f.minExponent_le
    rw [← zpow_natCast, ← zpow_add₀ two_ne_zero]
    exact zpow_le_zpow_right₀ one_le_two (by omega)

/-- Digits that are no finite number of the format are an infinity of their sign. -/
theorem assemble_cases (f : Format) (negative : Bool) (mantissa : Nat) (exponent : Int) :
    (assemble f negative mantissa exponent).isFinite = true ∨
      assemble f negative mantissa exponent = .infinite negative := by
  by_cases h : f.Canonical
      (if mantissa = Nat.pow 2 f.precision then Nat.pow 2 (f.precision - 1) else mantissa)
      (if mantissa = Nat.pow 2 f.precision then exponent + 1 else exponent)
  · exact Or.inl (congrArg isFinite (dif_pos h))
  · exact Or.inr (dif_neg h)

/-- From the limit on a fraction is rounded to an infinity of its sign. -/
theorem round_eq_infinite (hprecision : 0 < f.precision) (h : f.limit ≤ r.toRat) :
    round f negative r = .infinite negative := by
  have hfinite : ¬(round f negative r).isFinite = true := by
    rw [isFinite_round_iff hprecision]
    exact not_lt.2 h
  rw [round] at hfinite ⊢
  split at hfinite
  · exact absurd rfl hfinite
  · rename_i hnum
    rw [if_neg hnum]
    exact (assemble_cases _ _ _ _).resolve_left hfinite

namespace Finite

/-- The number that a number of its sign is rounded to is the nearest one. -/
theorem nearestTo_of_round {x : Finite g} {y : Finite f} (hprecision : 2 ≤ f.precision)
    (h : round f x.negative x.magnitude = .finite y) : x.NearestTo y := by
  have hsign := negative_round h
  have hown := abs_value_sub hsign
  -- a number of the other sign is not nearer than zero
  have hother : ∀ z : Finite f, z.negative ≠ x.negative → |z.value - x.value| =
      z.magnitude.toRat + |(zero x.negative : Finite f).magnitude.toRat - x.magnitude.toRat| := by
    intro z hz
    rw [abs_value_sub_of_ne hz, magnitude_zero, zero_sub, abs_neg, abs_of_nonneg x.magnitude_nonneg]
  have hfromZero := round_nearest hprecision h (zero x.negative)
  refine ⟨hsign, ?_, ?_⟩
  · intro z
    rw [hown]
    by_cases hz : z.negative = x.negative
    · rw [abs_value_sub hz]
      exact (round_nearest hprecision h z).1
    · have hnonneg := z.magnitude_nonneg
      rw [hother z hz]
      linarith [hfromZero.1]
  · intro z htie
    rw [hown] at htie
    by_cases hz : z.negative = x.negative
    · rw [abs_value_sub hz] at htie
      refine ((round_nearest hprecision h z).2 htie).imp_left ?_
      intro hsame
      rw [value, value, hz, hsign, hsame]
    · have hnonneg := z.magnitude_nonneg
      rw [hother z hz] at htie
      have hvanishes : z.magnitude.toRat = 0 := by linarith [hfromZero.1]
      have hnear : |(zero x.negative : Finite f).magnitude.toRat - x.magnitude.toRat| =
          |y.magnitude.toRat - x.magnitude.toRat| := by linarith
      refine (hfromZero.2 hnear).imp_left ?_
      intro hsame
      rw [magnitude_zero] at hsame
      rw [value, value, hvanishes, ← hsame]
      simp

end Finite

/-- A finite number that is converted to a format becomes the nearest number there, or an infinity
of its sign if it is beyond the limit. -/
theorem becomes_convert (hprecision : 2 ≤ f.precision) (x : Finite g) :
    x.Becomes (convert f (.finite x)) := by
  show x.Becomes (round f x.negative x.magnitude)
  rcases lt_or_ge x.magnitude.toRat f.limit with hbelow | hbeyond
  · have hfinite : (round f x.negative x.magnitude).isFinite = true :=
      (isFinite_round_iff (by omega)).2 hbelow
    obtain ⟨y, hy⟩ := exists_of_isFinite hfinite
    rw [hy]
    exact .nearest (x.abs_value.trans_lt hbelow) (Finite.nearestTo_of_round hprecision hy)
  · rw [round_eq_infinite (by omega) hbeyond]
    exact .beyond (hbeyond.trans_eq x.abs_value.symm)

/-- A number stays finite in another format exactly below the limit of that format. -/
theorem isFinite_convert_iff (hprecision : 0 < f.precision) (x : Finite g) :
    (convert f (.finite x)).isFinite = true ↔ |x.value| < f.limit := by
  show (round f x.negative x.magnitude).isFinite = true ↔ _
  rw [isFinite_round_iff hprecision, x.abs_value]

/-- A number keeps its value in its own format. -/
theorem convert_self (hprecision : 0 < f.precision) (x : Finite f) :
    convert f (.finite x) = .finite x :=
  round_eq hprecision rfl

end Floating

end DocumentSchema
