import DocumentSchema.Floating.Rounding

/-!
# The shortest decimal of a number

The shortest decimal of a finite number is the one with the fewest digits that rounds back to it,
and of several with as few digits the one nearest to it. On the grid of decimals with `n` digits
only the two neighbours of the number can be that one, so grids are tried from the coarsest on.
Whatever `shortest` gives rounds back to the number: each candidate is tested by the rounding that
reads it, and seventeen digits always hold one.
-/

set_option autoImplicit false

namespace DocumentSchema

/-- The exponent of the greatest power of ten at or below a positive fraction: the numerals of
numerator and denominator leave two candidates. -/
def Fraction.log10 (r : Fraction) : Int :=
  let guess : Int := ((Decimal.numeral r.num).length : Int) - (Decimal.numeral r.den).length
  if r.reaches 10 guess then guess else guess - 1

namespace Floating

/-- Which of two equally near candidates stands. -/
inductive Tie where
  | up
  | even
deriving DecidableEq

/-- Whether the lower neighbour stands when both neighbours of a fraction between two integers
round back. -/
def Tie.prefersLower (tie : Tie) (r : Fraction) : Bool :=
  let twice := 2 * (r.num % r.den)
  if twice = r.den then
    match tie with
    | .up => false
    | .even => r.floor % 2 = 0
  else twice < r.den

namespace Finite

variable {f : Format}

/-- Whether a decimal rounds to the absolute value of the number. -/
def readsBack (x : Finite f) (d : Decimal) : Bool :=
  ofDecimal f x.negative d = .finite x

/-- The decimal on the grid `10 ^ exponent` that rounds back and is nearest, if there is one. -/
def candidate? (tie : Tie) (x : Finite f) (exponent : Int) : Option Decimal :=
  let scaled := x.magnitude.scaleTen (-exponent)
  let lower := Decimal.ofScaled scaled.floor exponent
  let upper := Decimal.ofScaled (scaled.floor + 1) exponent
  match x.readsBack lower, x.readsBack upper with
  | true, true => some (if tie.prefersLower scaled then lower else upper)
  | true, false => some lower
  | false, true => some upper
  | false, false => none

/-- Every digit of the number: a power of two below one is a power of five on a decimal grid. -/
def exactDecimal (x : Finite f) : Decimal :=
  if 0 ≤ x.exponent then Decimal.ofScaled (x.mantissa * Nat.pow 2 x.exponent.toNat) 0
  else Decimal.ofScaled (x.mantissa * Nat.pow 5 (-x.exponent).toNat) x.exponent

/-- The fewest digits that round back to the absolute value of the number. -/
def shortest (tie : Tie) (x : Finite f) : Decimal :=
  if x.mantissa = 0 then .zero
  else
    let leading := x.magnitude.log10
    let found := (List.range 17).findSome? fun (n : Nat) =>
      x.candidate? tie (leading - (n : Int))
    found.getD x.exactDecimal

end Finite

end Floating

end DocumentSchema
