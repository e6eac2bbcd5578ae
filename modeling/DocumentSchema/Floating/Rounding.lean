import DocumentSchema.Decimal.Basic
import DocumentSchema.Floating.Basic

/-!
# Rounding to a format

Every inexact operation here computes an exact fraction and rounds once: to the nearest number of
the format, a tie going to the even mantissa, and past the largest number to infinity. Integers,
decimals, products, quotients and numbers of another format all pass through `round`.
-/

set_option autoImplicit false

namespace DocumentSchema.Floating

/-- The number with a mantissa and an exponent that rounding produced: a mantissa that grew by one
digit is halved, and an exponent past the largest gives infinity. -/
def assemble (f : Format) (negative : Bool) (mantissa : Nat) (exponent : Int) : Floating f :=
  let carried := mantissa = Nat.pow 2 f.precision
  let m := if carried then Nat.pow 2 (f.precision - 1) else mantissa
  let e := if carried then exponent + 1 else exponent
  if h : f.Canonical m e then .finite ⟨negative, m, e, h⟩ else .infinite negative

/-- The number of the format nearest to a fraction of a sign. -/
def round (f : Format) (negative : Bool) (r : Fraction) : Floating f :=
  if r.num = 0 then .finite (Finite.zero negative)
  else
    let exponent := max f.minExponent (r.log2 - f.precision + 1)
    assemble f negative (r.scaleTwo (-exponent)).nearestEven exponent

def ofInt (f : Format) (i : Int) : Floating f := round f (i < 0) (Fraction.ofNat i.natAbs)

/-- The number nearest to a decimal of a sign. A decimal whose point lies beyond the format's
exponents rounds to infinity or zero, however far beyond it lies. -/
def ofDecimal (f : Format) (negative : Bool) (d : Decimal) : Floating f :=
  if f.maxExponent + f.precision + 1 < d.point then .infinite negative
  else if d.point < f.minExponent then .finite (Finite.zero negative)
  else round f negative d.fraction

variable {f : Format}

def mulNat (k : Nat) : Floating f → Floating f
  | .finite x => round f x.negative (x.magnitude.mulNat k)
  | x => x

def divNat (k : Nat) (k_pos : 0 < k) : Floating f → Floating f
  | .finite x => round f x.negative (x.magnitude.divNat k k_pos)
  | x => x

/-- What is left of a number without its whole part. -/
def fract : Floating f → Floating f
  | .finite x => round f x.negative x.magnitude.fract
  | .infinite _ => .nan false
  | .nan s => .nan s

def convert (g : Format) : Floating f → Floating g
  | .finite x => round g x.negative x.magnitude
  | .infinite s => .infinite s
  | .nan s => .nan s

end DocumentSchema.Floating
