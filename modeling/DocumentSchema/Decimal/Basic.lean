import DocumentSchema.Decimal.Integer
import DocumentSchema.Fraction

/-!
# Decimal numbers

A nonnegative decimal number is its significant digits and the place of the point before them: the
digits `d₁ d₂ …` with the point `p` stand for `0.d₁d₂… × 10 ^ p`. Neither end of the digits is a
zero, so that equal numbers are equal values; `normalize` brings any digits into that form.
-/

set_option autoImplicit false

namespace DocumentSchema

/-- A decimal number without leading or trailing zeros. -/
structure Decimal where
  digits : List Decimal.Digit
  point : Int
deriving DecidableEq

namespace Decimal

def zero : Decimal := ⟨[], 0⟩

/-- Drops leading zeros, each of which moves the point by one place. -/
def dropLeading : List Digit → Int → Decimal
  | [], _ => zero
  | d :: ds, point => if d = 0 then dropLeading ds (point - 1) else ⟨d :: ds, point⟩

def dropTrailing (ds : List Digit) : List Digit :=
  (ds.reverse.dropWhile (· = 0)).reverse

/-- The number that digits after a point at `point` stand for. -/
def normalize (ds : List Digit) (point : Int) : Decimal :=
  dropLeading (dropTrailing ds) point

def ofScaled (n : Nat) (exponent : Int) : Decimal :=
  normalize (numeral n) ((numeral n).length + exponent)

def fraction (d : Decimal) : Fraction :=
  (Fraction.ofNat (value d.digits)).scaleTen (d.point - d.digits.length)

/-- Reads what may follow the digits of a number: nothing, or an exponent. -/
def readExponent? : List Char → Option Int
  | [] => some 0
  | 'e' :: cs => readSigned? cs
  | 'E' :: cs => readSigned? cs
  | _ :: _ => none

/-- Reads the digits after a point, if the text starts with one. -/
def readFractionDigits : List Char → List Digit × List Char
  | '.' :: cs => spanDigits cs
  | cs => ([], cs)

/-- Reads an unsigned number: digits with a point anywhere among them, at least one digit, and an
optional exponent. -/
def read? (cs : List Char) : Option Decimal :=
  let whole := spanDigits cs
  let fractional := readFractionDigits whole.2
  if whole.1.isEmpty && fractional.1.isEmpty then none
  else (readExponent? fractional.2).map fun exponent =>
    normalize (whole.1 ++ fractional.1) (whole.1.length + exponent)

end Decimal

end DocumentSchema
