import DocumentSchema.Fraction

/-!
# Floating-point numbers

A format fixes how many binary digits a number keeps and which exponents it has. A finite number
has exactly one representation in its format (`Format.Canonical`), and every finite number is a
whole multiple of the format's least positive one, its `units`, so numbers are compared as
integers. Equality here is numeric: the two zeros are equal and no NaN equals anything.
-/

set_option autoImplicit false

namespace DocumentSchema

/-- A binary format: the digits of a mantissa, the exponents of its last digit, the bytes. -/
structure Format where
  precision : Nat
  minExponent : Int
  maxExponent : Int
  bytes : Nat
  minExponent_le : minExponent ≤ maxExponent := by decide
deriving DecidableEq

def Format.binary64 : Format :=
  { precision := 53, minExponent := -1074, maxExponent := 971, bytes := 8 }

def Format.binary32 : Format :=
  { precision := 24, minExponent := -149, maxExponent := 104, bytes := 4 }

/-- A mantissa uses every digit of the format, except at the least exponent. -/
def Format.Canonical (f : Format) (mantissa : Nat) (exponent : Int) : Prop :=
  mantissa < Nat.pow 2 f.precision ∧ f.minExponent ≤ exponent ∧ exponent ≤ f.maxExponent ∧
    (Nat.pow 2 (f.precision - 1) ≤ mantissa ∨ exponent = f.minExponent)

instance (f : Format) (mantissa : Nat) (exponent : Int) :
    Decidable (f.Canonical mantissa exponent) := by
  unfold Format.Canonical
  infer_instance

namespace Floating

/-- The finite number `mantissa * 2 ^ exponent`, negated if `negative`; zero has both signs. -/
structure Finite (f : Format) where
  negative : Bool
  mantissa : Nat
  exponent : Int
  canonical : f.Canonical mantissa exponent
deriving DecidableEq

namespace Finite

variable {f : Format}

def zero (negative : Bool) : Finite f :=
  ⟨negative, 0, f.minExponent, Nat.two_pow_pos _, Int.le_refl _, f.minExponent_le, Or.inr rfl⟩

def magnitude (x : Finite f) : Fraction := (Fraction.ofNat x.mantissa).scaleTwo x.exponent

def withSign (x : Finite f) (n : Nat) : Int := if x.negative then -(n : Int) else n

/-- The number as a multiple of the least positive number of the format. -/
def units (x : Finite f) : Int :=
  x.withSign (x.mantissa * Nat.pow 2 (x.exponent - f.minExponent).toNat)

def toInt? (x : Finite f) : Option Int :=
  let r := x.magnitude
  if r.num % r.den = 0 then some (x.withSign (r.num / r.den)) else none

def nearestInt (x : Finite f) : Int := x.withSign x.magnitude.nearestUp

/-- The integer next to the number on the side of zero. -/
def trunc (x : Finite f) : Int := x.withSign x.magnitude.floor

end Finite

end Floating

/-- A number of a format: finite, infinite or no number at all. -/
inductive Floating (f : Format) where
  | finite (x : Floating.Finite f)
  | infinite (negative : Bool)
  | nan (negative : Bool)
deriving DecidableEq

/-- Double-precision numbers. -/
abbrev Binary64 := Floating .binary64

/-- Finite double-precision numbers. -/
abbrev Finite64 := Floating.Finite .binary64

/-- Single-precision numbers. -/
abbrev Binary32 := Floating .binary32

namespace Floating

variable {f : Format}

/-- The finite number, unless the number is infinite or none. -/
def toFinite? : Floating f → Option (Finite f)
  | .finite x => some x
  | .infinite _ => none
  | .nan _ => none

def isFinite (x : Floating f) : Bool := x.toFinite?.isSome

def equal : Floating f → Floating f → Bool
  | .finite x, .finite y => x.units = y.units
  | .infinite s, .infinite t => s = t
  | _, _ => false

def le : Floating f → Floating f → Bool
  | .finite x, .finite y => x.units ≤ y.units
  | .infinite s, .infinite t => s || !t
  | .infinite s, .finite _ => s
  | .finite _, .infinite t => !t
  | _, _ => false

def lt (x y : Floating f) : Bool := x.le y && !x.equal y

def zero : Floating f := .finite (Finite.zero false)

end Floating

end DocumentSchema
