import DocumentSchema.Proofs.Floating.Rounding
import Mathlib.Algebra.Order.Ring.Abs
import Mathlib.Tactic.Linarith

/-!
# Rounding errors

Rounding goes to a neighbour that is at most half a step away. Below a power of two the steps are no
longer than those of the last binade, so what was rounded is off by at most half of such a step
(`round_error`). In the last binade itself the steps are all alike, and rounding to them is rounding
a multiple of the fraction to an integer (`round_binade`); for a quotient of natural numbers this can
be said in whole numbers (`round_quotient`). An error below one half does not lead to another integer
(`nearestUp_eq_of_near`).
-/

set_option autoImplicit false

namespace DocumentSchema

namespace Fraction

/-- Multiplying a fraction by a natural number multiplies its value. -/
theorem toRat_mulNat (r : Fraction) (k : Nat) : (r.mulNat k).toRat = r.toRat * k := by
  rw [toRat, toRat, mulNat, div_mul_eq_mul_div]
  push_cast
  rfl

/-- A fraction is the integer below it and a proper fraction. -/
theorem toRat_eq_floor_add (r : Fraction) :
    r.toRat = (r.num / r.den : Nat) + ((r.num % r.den : Nat) : ℚ) / r.den := by
  have hden := r.den_cast_pos
  have hsplit : (r.num : ℚ) = r.den * (r.num / r.den : Nat) + (r.num % r.den : Nat) := by
    exact_mod_cast (Nat.div_add_mod r.num r.den).symm
  rw [toRat, div_eq_iff hden.ne', add_mul, div_mul_cancel₀ _ hden.ne', mul_comm _ (r.den : ℚ)]
  exact hsplit

/-- A multiple of a power of two is as far from a fraction as the factor is from the fraction
scaled, in units of the power. -/
theorem abs_multiple_sub (r : Fraction) (e : Int) (n : Nat) :
    |(n : ℚ) * 2 ^ e - r.toRat| = |(n : ℚ) - (r.scaleTwo (-e)).toRat| * 2 ^ e := by
  have hstep : (0 : ℚ) < 2 ^ e := by positivity
  have hscaled : r.toRat = (r.scaleTwo (-e)).toRat * 2 ^ e := by
    rw [toRat_scaleTwo, zpow_neg, inv_mul_cancel_right₀ hstep.ne']
  rw [hscaled, ← sub_mul, abs_mul, abs_of_pos hstep]

/-- Rounding to the nearest integer is off by at most one half. -/
theorem nearestEven_error (r : Fraction) : |(r.nearestEven : ℚ) - r.toRat| ≤ 1 / 2 := by
  have hden := r.den_cast_pos
  have hlow : (0 : ℚ) ≤ ((r.num % r.den : Nat) : ℚ) / r.den := by positivity
  have hhigh : ((r.num % r.den : Nat) : ℚ) / r.den < 1 := by
    rw [div_lt_one hden]
    exact_mod_cast Nat.mod_lt _ r.den_pos
  have hdown : 2 * (r.num % r.den) ≤ r.den → ((r.num % r.den : Nat) : ℚ) / r.den ≤ 1 / 2 := by
    intro h
    have hcast : 2 * ((r.num % r.den : Nat) : ℚ) ≤ r.den := by exact_mod_cast h
    rw [div_le_iff₀ hden]
    linarith
  have hup : r.den ≤ 2 * (r.num % r.den) → 1 / 2 ≤ ((r.num % r.den : Nat) : ℚ) / r.den := by
    intro h
    have hcast : (r.den : ℚ) ≤ 2 * ((r.num % r.den : Nat) : ℚ) := by exact_mod_cast h
    rw [le_div_iff₀ hden]
    linarith
  rw [toRat_eq_floor_add, abs_le]
  simp only [nearestEven]
  -- the lower neighbour stands below the middle, the upper one above it, and either at the middle
  split
  · rename_i h
    have hhalf := hdown h.le
    constructor <;> linarith
  · rename_i h
    have hhalf := hup (not_lt.1 h)
    split
    · push_cast
      constructor <;> linarith
    · rename_i hmiddle
      have hhalf' := hdown (not_lt.1 hmiddle)
      split
      · constructor <;> linarith
      · push_cast
        constructor <;> linarith

/-- Half a step of a quotient that is rounded to an integer, in whole numbers. -/
theorem nearestEven_bounds {r : Fraction} {a b : Nat} (hb : 0 < b) (hr : r.toRat = (a : ℚ) / b) :
    2 * a ≤ b * (2 * r.nearestEven + 1) ∧ b * (2 * r.nearestEven) ≤ 2 * a + b := by
  have hpositive : (0 : ℚ) < b := by exact_mod_cast hb
  obtain ⟨hlow, hhigh⟩ := abs_le.1 (nearestEven_error r)
  have hvalue : r.toRat * b = a := by rw [hr, div_mul_cancel₀ _ hpositive.ne']
  have hlow' := mul_le_mul_of_nonneg_right hlow hpositive.le
  have hhigh' := mul_le_mul_of_nonneg_right hhigh hpositive.le
  rw [sub_mul, hvalue] at hlow' hhigh'
  constructor
  · have hcast : 2 * (a : ℚ) ≤ b * (2 * r.nearestEven + 1) := by linarith
    exact_mod_cast hcast
  · have hcast : (b : ℚ) * (2 * r.nearestEven) ≤ 2 * a + b := by linarith
    exact_mod_cast hcast

/-- A fraction in the middle between an even number and the next is rounded to the even one. -/
theorem nearestEven_of_middle {r : Fraction} {n : Nat} (h : r.toRat = n + 1 / 2)
    (heven : n % 2 = 0) : r.nearestEven = n := by
  have hden := r.den_pos
  have hnum : 2 * r.num = (2 * n + 1) * r.den := by
    rw [toRat, div_eq_iff r.den_cast_pos.ne'] at h
    have hcast : 2 * (r.num : ℚ) = (2 * n + 1) * r.den := by linarith
    exact_mod_cast hcast
  have hdouble : 2 * r.num = 2 * (n * r.den) + r.den := by
    rw [hnum]
    ring
  have hdiv : r.num / r.den = n :=
    Nat.div_eq_of_lt_le (by omega) (by rw [Nat.add_mul, Nat.one_mul]; omega)
  have hmod : r.num % r.den = r.num - n * r.den := by
    rw [Nat.mod_eq_sub_div_mul, hdiv]
  simp only [nearestEven, hdiv, hmod]
  rw [if_neg (by omega), if_neg (by omega), if_pos heven]

/-- Half of an odd number is rounded up. -/
theorem nearestUp_of_half {r : Fraction} {n : Nat} (h : r.toRat = n / 2) :
    r.nearestUp = (n + 1) / 2 := by
  have hnum : 2 * r.num = n * r.den := by
    rw [toRat, div_eq_iff r.den_cast_pos.ne'] at h
    have hcast : 2 * (r.num : ℚ) = n * r.den := by linarith
    exact_mod_cast hcast
  have hsum : 2 * r.num + r.den = (n + 1) * r.den := by
    rw [hnum]
    ring
  rw [nearestUp, hsum, Nat.mul_div_mul_right _ _ r.den_pos]

/-- A fraction less than one half away from an integer is rounded to it. -/
theorem nearestUp_eq_of_near {r : Fraction} {n : Nat} (h : |r.toRat - n| < 1 / 2) :
    r.nearestUp = n := by
  have hden := r.den_cast_pos
  obtain ⟨hlow, hhigh⟩ := abs_lt.1 h
  have hbelow : (n : ℚ) - 1 / 2 < r.num / r.den := by
    rw [toRat] at hlow
    linarith
  have habove : (r.num : ℚ) / r.den < n + 1 / 2 := by
    rw [toRat] at hhigh
    linarith
  rw [lt_div_iff₀ hden] at hbelow
  rw [div_lt_iff₀ hden] at habove
  have hfirst : n * (2 * r.den) ≤ 2 * r.num + r.den := by
    have hcast : (n : ℚ) * (2 * r.den) ≤ 2 * r.num + r.den := by linarith
    exact_mod_cast hcast
  have hsecond : 2 * r.num + r.den < (n + 1) * (2 * r.den) := by
    have hcast : 2 * (r.num : ℚ) + r.den < (n + 1) * (2 * r.den) := by linarith
    exact_mod_cast hcast
  exact Nat.div_eq_of_lt_le hfirst hsecond

end Fraction

namespace Floating

variable {f : Format} {negative : Bool} {r : Fraction} {x : Finite f} {b : Int}

/-- Below a power of two rounding is off by at most half a step of the last binade. -/
theorem round_error (hprecision : 0 < f.precision) (hb : f.minExponent + f.precision ≤ b)
    (hr : r.toRat < 2 ^ b) (hx : round f negative r = .finite x) :
    |x.magnitude.toRat - r.toRat| ≤ 2 ^ (b - f.precision) / 2 := by
  have hpositive : (0 : ℚ) < 2 ^ (b - f.precision) / 2 := by positivity
  rw [round] at hx
  split at hx
  · rename_i hzero
    obtain rfl := Floating.finite.inj hx
    have hmagnitude : (Finite.zero negative : Finite f).magnitude.toRat = 0 := by
      rw [Finite.toRat_magnitude]
      simp [Finite.zero]
    rw [hmagnitude, Fraction.toRat_eq_zero.2 hzero, sub_zero, abs_zero]
    exact hpositive.le
  · rename_i hnum
    have hlog : r.log2 < b :=
      (zpow_lt_zpow_iff_right₀ one_lt_two).1 (lt_of_le_of_lt (Fraction.log2_bounds hnum).1 hr)
    simp only at hx
    rw [magnitude_assemble hprecision hx]
    set e := max f.minExponent (r.log2 - f.precision + 1) with he
    have hstep : (0 : ℚ) < 2 ^ e := by positivity
    have hle : (2 : ℚ) ^ e ≤ 2 ^ (b - f.precision) :=
      zpow_le_zpow_right₀ one_le_two (by omega)
    calc |((r.scaleTwo (-e)).nearestEven : ℚ) * 2 ^ e - r.toRat|
        = |((r.scaleTwo (-e)).nearestEven : ℚ) - (r.scaleTwo (-e)).toRat| * 2 ^ e :=
          Fraction.abs_multiple_sub r e _
      _ ≤ 1 / 2 * 2 ^ e :=
          mul_le_mul_of_nonneg_right (Fraction.nearestEven_error _) hstep.le
      _ ≤ 2 ^ (b - f.precision) / 2 := by linarith

/-- In a binade rounding goes to a multiple of its step. -/
theorem round_binade (hprecision : 0 < f.precision) (hb : f.minExponent + f.precision ≤ b)
    (hlow : 2 ^ (b - 1) ≤ r.toRat) (hr : r.toRat < 2 ^ b)
    (hx : round f negative r = .finite x) :
    x.magnitude.toRat = (r.scaleTwo (f.precision - b)).nearestEven * 2 ^ (b - f.precision) := by
  have hlog : r.log2 = b - 1 := Fraction.log2_eq hlow (by rwa [sub_add_cancel])
  have hnum : r.num ≠ 0 := by
    intro hzero
    have hpositive : (0 : ℚ) < 2 ^ (b - 1) := by positivity
    rw [Fraction.toRat_eq_zero.2 hzero] at hlow
    linarith
  have hexponent : max f.minExponent (r.log2 - f.precision + 1) = b - f.precision := by omega
  rw [round, if_neg hnum] at hx
  simp only [hexponent, neg_sub] at hx
  exact magnitude_assemble hprecision hx

/-- A quotient of natural numbers against a power of two. -/
theorem quotient_lt_iff {a b k : Nat} (hb : 0 < b) :
    (a : ℚ) / b < 2 ^ (k : Int) ↔ a < b * 2 ^ k := by
  have hpositive : (0 : ℚ) < b := by exact_mod_cast hb
  rw [div_lt_iff₀ hpositive, zpow_natCast, mul_comm]
  exact_mod_cast Iff.rfl

/-- In its binade a quotient is rounded to a multiple of the step that is at most half a step away,
and from the middle to the even one. -/
theorem round_quotient {a c k d : Nat} (hc : 0 < c) (hr : r.toRat = (a : ℚ) / c)
    (hlow : c * 2 ^ k ≤ a) (hhigh : a < c * 2 ^ (k + 1)) (hd : k + 1 + d = f.precision)
    (hleast : f.minExponent + d ≤ 0) (hx : round f negative r = .finite x) :
    ∃ p : Nat, x.magnitude.toRat = (p : ℚ) / 2 ^ d ∧
      2 * (2 ^ d * a) ≤ c * (2 * p + 1) ∧ c * (2 * p) ≤ 2 * (2 ^ d * a) + c ∧
      ∀ n, 2 * (2 ^ d * a) = c * (2 * n + 1) → n % 2 = 0 → p = n := by
  have hfloor : (2 : ℚ) ^ (((k + 1 : Nat) : Int) - 1) ≤ r.toRat := by
    rw [Nat.cast_succ, add_sub_cancel_right, ← not_lt, hr, quotient_lt_iff hc]
    exact not_lt.2 hlow
  have hceil : r.toRat < 2 ^ ((k + 1 : Nat) : Int) := by
    rw [hr, quotient_lt_iff hc]
    exact hhigh
  have hvalue := round_binade (by omega) (by omega) hfloor hceil hx
  have hdown : ((k + 1 : Nat) : Int) - f.precision = -(d : Int) := by omega
  have hup : (f.precision : Int) - (k + 1 : Nat) = d := by omega
  rw [hdown, hup, zpow_neg, zpow_natCast, ← div_eq_mul_inv] at hvalue
  have hscaled : (r.scaleTwo d).toRat = ((2 ^ d * a : Nat) : ℚ) / c := by
    rw [Fraction.toRat_scaleTwo, hr, zpow_natCast]
    push_cast
    ring
  obtain ⟨hbelow, habove⟩ := Fraction.nearestEven_bounds hc hscaled
  refine ⟨_, hvalue, hbelow, habove, ?_⟩
  intro n hmiddle heven
  apply Fraction.nearestEven_of_middle _ heven
  have hpositive : (0 : ℚ) < c := by exact_mod_cast hc
  have hcast : 2 * ((2 ^ d * a : Nat) : ℚ) = c * (2 * n + 1) := by exact_mod_cast hmiddle
  rw [hscaled, div_eq_iff hpositive.ne']
  linarith

end Floating

end DocumentSchema
