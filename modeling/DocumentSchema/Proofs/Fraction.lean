import DocumentSchema.Fraction
import Mathlib.Algebra.Order.Field.Power
import Mathlib.Algebra.Order.Field.Rat
import Mathlib.Data.Nat.Log
import Mathlib.Data.Rat.Cast.Order
import Mathlib.Tactic.FieldSimp
import Mathlib.Tactic.Linarith
import Mathlib.Tactic.NormNum
import Mathlib.Tactic.Positivity
import Mathlib.Tactic.Ring

/-!
# Fractions as rational numbers

The operations on fractions are integer arithmetic on numerators and denominators. Here each of them
is read as an operation on rational numbers: scaling multiplies by a power (`toRat_scale`), the two
roundings give back whole numbers (`nearestEven_eq`, `nearestUp_eq`), and `log2` is the exponent of
the binade that holds the fraction (`log2_eq`).
-/

set_option autoImplicit false

namespace DocumentSchema.Fraction

/-- The rational number that a fraction stands for. -/
def toRat (r : Fraction) : ℚ := r.num / r.den

/-- The denominator of a fraction is positive as a rational number. -/
theorem den_cast_pos (r : Fraction) : (0 : ℚ) < r.den := by
  exact_mod_cast r.den_pos

/-- A natural number as a fraction has its own value. -/
theorem toRat_ofNat (n : Nat) : (ofNat n).toRat = n := by
  simp [toRat, ofNat]

/-- A fraction is zero exactly if its numerator is. -/
theorem toRat_eq_zero {r : Fraction} : r.toRat = 0 ↔ r.num = 0 := by
  have hden := r.den_cast_pos
  rw [toRat, div_eq_zero_iff]
  constructor
  · rintro (h | h)
    · exact_mod_cast h
    · exact absurd h hden.ne'
  · intro h
    exact Or.inl (by exact_mod_cast h)

/-- An integer power of a base as a quotient of two natural powers. -/
theorem zpow_eq_div (base : ℚ) (e : Int) :
    base ^ e = base ^ e.toNat / base ^ (-e).toNat := by
  rcases le_total 0 e with h | h
  · lift e to Nat using h
    simp
  · obtain ⟨n, rfl⟩ : ∃ n : Nat, e = -(n : Int) := ⟨(-e).toNat, by omega⟩
    simp

/-- Scaling a fraction by a power of a base multiplies its value by that power. -/
theorem toRat_scale (r : Fraction) (base : Nat) (hbase : 0 < base) (e : Int) :
    (r.scale base hbase e).toRat = r.toRat * (base : ℚ) ^ e := by
  rw [zpow_eq_div, toRat, toRat, scale]
  push_cast [Nat.pow_eq]
  rw [div_mul_div_comm]

/-- Scaling a fraction by a power of two multiplies its value by that power. -/
theorem toRat_scaleTwo (r : Fraction) (e : Int) : (r.scaleTwo e).toRat = r.toRat * 2 ^ e :=
  toRat_scale r 2 (Nat.succ_pos 1) e

/-- Scaling a fraction by a power of ten multiplies its value by that power. -/
theorem toRat_scaleTen (r : Fraction) (e : Int) : (r.scaleTen e).toRat = r.toRat * 10 ^ e :=
  toRat_scale r 10 (Nat.succ_pos 9) e

/-- Dividing a fraction by a natural number divides its value. -/
theorem toRat_divNat (r : Fraction) (k : Nat) (hk : 0 < k) :
    (r.divNat k hk).toRat = r.toRat / k := by
  rw [toRat, toRat, divNat, div_div]
  push_cast
  rfl

/-- A fraction with a whole value has a multiple of its denominator as its numerator. -/
theorem num_eq_of_toRat {r : Fraction} {n : Nat} (h : r.toRat = n) : r.num = n * r.den := by
  rw [toRat, div_eq_iff r.den_cast_pos.ne'] at h
  exact_mod_cast h

/-- Rounding to the even neighbour keeps a whole number. -/
theorem nearestEven_eq {r : Fraction} {n : Nat} (h : r.toRat = n) : r.nearestEven = n := by
  have hden := r.den_pos
  have hnum := num_eq_of_toRat h
  have hdiv : r.num / r.den = n := by rw [hnum, Nat.mul_div_cancel _ hden]
  have hmod : r.num % r.den = 0 := by rw [hnum, Nat.mul_mod_left]
  simp only [nearestEven, hdiv, hmod]
  rw [if_pos (by omega)]

/-- A whole number is nearest to itself. -/
theorem nearestUp_eq {r : Fraction} {n : Nat} (h : r.toRat = n) : r.nearestUp = n := by
  have hden := r.den_pos
  have hnum := num_eq_of_toRat h
  have hsum : 2 * r.num + r.den = r.den + 2 * r.den * n := by rw [hnum]; ring
  rw [nearestUp, hsum, Nat.add_mul_div_left _ _ (by omega), Nat.div_eq_of_lt (by omega), Nat.zero_add]

/-- Rounding to the even neighbour stays at or below a whole bound. -/
theorem nearestEven_le {r : Fraction} {n : Nat} (h : r.toRat ≤ n) : r.nearestEven ≤ n := by
  have hden := r.den_pos
  have hnum : r.num ≤ n * r.den := by
    rw [toRat, div_le_iff₀ r.den_cast_pos] at h
    exact_mod_cast h
  rcases Nat.eq_or_lt_of_le hnum with heq | hlt
  · refine le_of_eq (nearestEven_eq ?_)
    rw [toRat, heq, Nat.cast_mul, mul_div_cancel_right₀ _ r.den_cast_pos.ne']
  · have hdiv : r.num / r.den < n := (Nat.div_lt_iff_lt_mul hden).2 hlt
    simp only [nearestEven]
    split
    · omega
    · split
      · omega
      · split <;> omega

/-- Rounding to the even neighbour stays at or above a whole bound. -/
theorem le_nearestEven {r : Fraction} {n : Nat} (h : (n : ℚ) ≤ r.toRat) : n ≤ r.nearestEven := by
  have hnum : n * r.den ≤ r.num := by
    rw [toRat, le_div_iff₀ r.den_cast_pos] at h
    exact_mod_cast h
  have hdiv : n ≤ r.num / r.den := (Nat.le_div_iff_mul_le r.den_pos).2 hnum
  simp only [nearestEven]
  split
  · omega
  · split
    · omega
    · split <;> omega

/-- The test on numerator and denominator says whether a fraction is at least a power. -/
theorem reaches_iff {r : Fraction} {base : Nat} (hbase : 0 < base) {e : Int} :
    r.reaches base e = true ↔ (base : ℚ) ^ e ≤ r.toRat := by
  have hb : (0 : ℚ) < base := by exact_mod_cast hbase
  have hden := r.den_cast_pos
  have hpow : (0 : ℚ) < (base : ℚ) ^ (-e).toNat := by positivity
  rw [zpow_eq_div, toRat, div_le_div_iff₀ hpow hden, reaches, decide_eq_true_eq]
  rw [mul_comm ((base : ℚ) ^ e.toNat)]
  constructor
  · intro h
    exact_mod_cast h
  · intro h
    exact_mod_cast h

/-- The bit lengths of numerator and denominator leave two candidates for the exponent. -/
theorem guess_bounds {r : Fraction} (h : r.num ≠ 0) :
    (2 : ℚ) ^ ((r.num.log2 : Int) - r.den.log2 - 1) < r.toRat ∧
      r.toRat < (2 : ℚ) ^ ((r.num.log2 : Int) - r.den.log2 + 1) := by
  have hden := r.den_cast_pos
  have hnumLow : (2 : ℚ) ^ r.num.log2 ≤ r.num := by exact_mod_cast Nat.log2_self_le h
  have hnumHigh : (r.num : ℚ) < 2 ^ (r.num.log2 + 1) := by exact_mod_cast Nat.lt_log2_self
  have hdenLow : (2 : ℚ) ^ r.den.log2 ≤ r.den := by
    exact_mod_cast Nat.log2_self_le r.den_pos.ne'
  have hdenHigh : (r.den : ℚ) < 2 ^ (r.den.log2 + 1) := by exact_mod_cast Nat.lt_log2_self
  constructor
  · rw [toRat, lt_div_iff₀ hden]
    calc (2 : ℚ) ^ ((r.num.log2 : Int) - r.den.log2 - 1) * r.den
        < 2 ^ ((r.num.log2 : Int) - r.den.log2 - 1) * 2 ^ (r.den.log2 + 1) := by
          exact mul_lt_mul_of_pos_left hdenHigh (by positivity)
      _ = 2 ^ r.num.log2 := by
          rw [← zpow_natCast, ← zpow_natCast, ← zpow_add₀ two_ne_zero]
          congr 1
          push_cast
          ring
      _ ≤ r.num := hnumLow
  · rw [toRat, div_lt_iff₀ hden]
    calc (r.num : ℚ) < 2 ^ (r.num.log2 + 1) := hnumHigh
      _ = 2 ^ ((r.num.log2 : Int) - r.den.log2 + 1) * 2 ^ r.den.log2 := by
          rw [← zpow_natCast, ← zpow_natCast, ← zpow_add₀ two_ne_zero]
          congr 1
          push_cast
          ring
      _ ≤ 2 ^ ((r.num.log2 : Int) - r.den.log2 + 1) * r.den := by
          exact mul_le_mul_of_nonneg_left hdenLow (by positivity)

/-- A positive fraction lies in the binade of its exponent. -/
theorem log2_bounds {r : Fraction} (h : r.num ≠ 0) :
    (2 : ℚ) ^ r.log2 ≤ r.toRat ∧ r.toRat < (2 : ℚ) ^ (r.log2 + 1) := by
  obtain ⟨hlow, hhigh⟩ := guess_bounds h
  simp only [log2]
  split
  · rename_i hreach
    exact ⟨by simpa using (reaches_iff two_pos).1 hreach, hhigh⟩
  · rename_i hreach
    have hlt : r.toRat < (2 : ℚ) ^ ((r.num.log2 : Int) - r.den.log2) := by
      by_contra hle
      exact hreach ((reaches_iff two_pos).2 (by simpa using hle))
    exact ⟨hlow.le, by simpa using hlt⟩

/-- The exponent of the binade that holds a fraction. -/
theorem log2_eq {r : Fraction} {e : Int} (hlow : (2 : ℚ) ^ e ≤ r.toRat)
    (hhigh : r.toRat < (2 : ℚ) ^ (e + 1)) : r.log2 = e := by
  have hnum : r.num ≠ 0 := by
    intro h
    have hzero := toRat_eq_zero.2 h
    have hpos : (0 : ℚ) < 2 ^ e := by positivity
    linarith
  obtain ⟨hlow', hhigh'⟩ := log2_bounds hnum
  have h₁ : e < r.log2 + 1 := (zpow_lt_zpow_iff_right₀ one_lt_two).1 (lt_of_le_of_lt hlow hhigh')
  have h₂ : r.log2 < e + 1 := (zpow_lt_zpow_iff_right₀ one_lt_two).1 (lt_of_le_of_lt hlow' hhigh)
  omega

end DocumentSchema.Fraction
