import DocumentSchema.Decimal.Digit

/-!
# Integers as text

An integer is written as its shortest numeral after a minus sign if it is negative, and read from
any numeral, leading zeros and an explicit plus sign included. `Int128` and `Natural64` are the two
ranges that stored integers and counts keep to.
-/

set_option autoImplicit false

namespace DocumentSchema

namespace Decimal

def natText (n : Nat) : String := String.ofList (chars (numeral n))

def intText (i : Int) : String :=
  if i < 0 then "-" ++ natText i.natAbs else natText i.natAbs

def readUnsigned? (cs : List Char) : Option Nat := (readDigits? cs).map value

def readSigned? : List Char → Option Int
  | '-' :: cs => (readUnsigned? cs).map fun n => -(n : Int)
  | '+' :: cs => (readUnsigned? cs).map fun n => (n : Int)
  | cs => (readUnsigned? cs).map fun n => (n : Int)

/-- Reads a count below `2 ^ 64`; a plus sign may stand in front. -/
def readCount? (cs : List Char) : Option Nat :=
  let numeral := match cs with
    | '+' :: rest => rest
    | cs => cs
  (readUnsigned? numeral).filter (· < 18446744073709551616)

end Decimal

/-- A 128-bit signed integer. -/
structure Int128 where
  val : Int
  lower : -170141183460469231731687303715884105728 ≤ val
  upper : val < 170141183460469231731687303715884105728
deriving DecidableEq

namespace Int128

def least : Int128 := ⟨-170141183460469231731687303715884105728, by decide, by decide⟩

def greatest : Int128 := ⟨170141183460469231731687303715884105727, by decide, by decide⟩

/-- The integer of the range that is nearest. -/
def clamp (i : Int) : Int128 :=
  ⟨max least.val (min i greatest.val), by simp only [least, greatest]; omega,
    by simp only [least, greatest]; omega⟩

def ofInt? (i : Int) : Option Int128 :=
  if h : -170141183460469231731687303715884105728 ≤ i ∧
      i < 170141183460469231731687303715884105728 then some ⟨i, h.1, h.2⟩
  else none

def text (i : Int128) : String := Decimal.intText i.val

def read? (s : String) : Option Int128 := (Decimal.readSigned? s.toList).bind ofInt?

end Int128

end DocumentSchema
