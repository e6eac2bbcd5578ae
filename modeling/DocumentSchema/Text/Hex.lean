/-!
# Hexadecimal text

Bytes as two lower-case hexadecimal digits each, and numbers as their shortest hexadecimal numeral.
-/

set_option autoImplicit false

namespace DocumentSchema.Text

def hexChar (d : Fin 16) : Char :=
  if d.val < 10 then Char.ofNat (48 + d.val) else Char.ofNat (87 + d.val)

/-- The digit that a hexadecimal character of either case stands for. -/
def hexDigit? (c : Char) : Option (Fin 16) :=
  (List.finRange 16).find? fun d => hexChar d = c.toLower

def hexByte (b : UInt8) : List Char :=
  [hexChar ⟨b.toNat / 16, by have := b.toNat_lt; omega⟩,
    hexChar ⟨b.toNat % 16, Nat.mod_lt _ (by decide)⟩]

/-- The lowest `count` hexadecimal digits of a number, most significant first. -/
def hexDigits : (count : Nat) → Nat → List Char
  | 0, _ => []
  | count + 1, n => hexDigits count (n / 16) ++ [hexChar ⟨n % 16, Nat.mod_lt _ (by decide)⟩]

/-- The hexadecimal numeral of a number without leading zeros. -/
def hexNumeral (n : Nat) : List Char := hexDigits (n.log2 / 4 + 1) n

def hexText (bytes : List UInt8) : String := String.ofList (bytes.flatMap hexByte)

end DocumentSchema.Text
