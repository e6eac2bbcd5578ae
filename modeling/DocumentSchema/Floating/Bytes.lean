import DocumentSchema.Bytes
import DocumentSchema.Floating.Basic

/-!
# Numbers as bytes

The bit pattern of a number holds its sign, its biased exponent and its fraction; a pattern is
stored least byte first. With the exponent counted from the least one, a canonical mantissa and its
exponent add up to the pattern whether the leading digit is implied or not.
-/

set_option autoImplicit false

namespace DocumentSchema.Floating

def Finite.pattern {f : Format} (x : Finite f) : Nat :=
  (x.exponent - f.minExponent).toNat * Nat.pow 2 (f.precision - 1) + x.mantissa

/-- The bits below the sign of an infinite number: the exponent after the last. -/
def infinitePattern (f : Format) : Nat :=
  (f.maxExponent - f.minExponent + 2).toNat * Nat.pow 2 (f.precision - 1)

def signPattern (f : Format) (negative : Bool) : Nat :=
  if negative then Nat.pow 2 (8 * f.bytes - 1) else 0

def pattern {f : Format} : Floating f → Nat
  | .finite x => signPattern f x.negative + x.pattern
  | .infinite s => signPattern f s + infinitePattern f
  | .nan s => signPattern f s + infinitePattern f + Nat.pow 2 (f.precision - 2)

def toBytes {f : Format} (x : Floating f) : Bytes := littleEndian f.bytes x.pattern

end DocumentSchema.Floating
