/-!
# Blank characters

The characters with the Unicode property White_Space, and text without them at its ends.
-/

set_option autoImplicit false

namespace DocumentSchema.Text

def blankRanges : List (Nat × Nat) :=
  [(0x09, 0x0D), (0x20, 0x20), (0x85, 0x85), (0xA0, 0xA0), (0x1680, 0x1680), (0x2000, 0x200A),
    (0x2028, 0x2029), (0x202F, 0x202F), (0x205F, 0x205F), (0x3000, 0x3000)]

def isBlank (c : Char) : Bool :=
  blankRanges.any fun range => range.1 ≤ c.toNat && c.toNat ≤ range.2

/-- No range touches another one, and all of them together have 25 characters. -/
example : (blankRanges.flatMap fun range => List.range' range.1 (range.2 + 1 - range.1)).length = 25 ∧
    (blankRanges.flatMap fun range => List.range' range.1 (range.2 + 1 - range.1)).Nodup := by
  decide

def trim (cs : List Char) : List Char :=
  ((cs.dropWhile isBlank).reverse.dropWhile isBlank).reverse

/-- A text without the blanks at its ends, as characters. -/
def trimmed (s : String) : List Char := trim s.toList

end DocumentSchema.Text
