/-!
# Nonnegative fractions

The exact values between a decimal text and a floating-point number. A fraction can be scaled by a
power of a base, rounded down or to the nearest integer, and asked for its order of magnitude in a
base. Every operation is integer arithmetic on numerator and denominator.
-/

set_option autoImplicit false

namespace DocumentSchema

/-- A nonnegative fraction. -/
structure Fraction where
  num : Nat
  den : Nat
  den_pos : 0 < den
deriving DecidableEq

namespace Fraction

def ofNat (n : Nat) : Fraction := ⟨n, 1, by decide⟩

def scale (r : Fraction) (base : Nat) (base_pos : 0 < base) (exponent : Int) : Fraction :=
  ⟨r.num * Nat.pow base exponent.toNat, r.den * Nat.pow base (-exponent).toNat,
    Nat.mul_pos r.den_pos (Nat.pow_pos base_pos)⟩

def scaleTwo (r : Fraction) (exponent : Int) : Fraction := r.scale 2 (Nat.succ_pos 1) exponent

def scaleTen (r : Fraction) (exponent : Int) : Fraction := r.scale 10 (Nat.succ_pos 9) exponent

def mulNat (r : Fraction) (k : Nat) : Fraction := ⟨r.num * k, r.den, r.den_pos⟩

def divNat (r : Fraction) (k : Nat) (k_pos : 0 < k) : Fraction :=
  ⟨r.num, r.den * k, Nat.mul_pos r.den_pos k_pos⟩

def floor (r : Fraction) : Nat := r.num / r.den

/-- What is left of a fraction above the integer below it. -/
def fract (r : Fraction) : Fraction := ⟨r.num % r.den, r.den, r.den_pos⟩

def nearestEven (r : Fraction) : Nat :=
  let whole := r.num / r.den
  let twice := 2 * (r.num % r.den)
  if twice < r.den then whole
  else if r.den < twice then whole + 1
  else if whole % 2 = 0 then whole
  else whole + 1

def nearestUp (r : Fraction) : Nat := (2 * r.num + r.den) / (2 * r.den)

def reaches (r : Fraction) (base : Nat) (exponent : Int) : Bool :=
  r.den * Nat.pow base exponent.toNat ≤ r.num * Nat.pow base (-exponent).toNat

/-- The exponent of the greatest power of two at or below a positive fraction: the bit lengths of
numerator and denominator leave two candidates. -/
def log2 (r : Fraction) : Int :=
  let guess : Int := (r.num.log2 : Int) - r.den.log2
  if r.reaches 2 guess then guess else guess - 1

end Fraction

end DocumentSchema
