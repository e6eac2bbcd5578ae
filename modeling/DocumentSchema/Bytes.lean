/-!
# Bytes

A number as bytes, the least first, and the bytes of a text.
-/

set_option autoImplicit false

namespace DocumentSchema

/-- Binary data. -/
abbrev Bytes := List UInt8

def littleEndian : (count : Nat) → Nat → Bytes
  | 0, _ => []
  | count + 1, n => UInt8.ofNat (n % 256) :: littleEndian count (n / 256)

def utf8 (s : String) : Bytes := s.toUTF8.data.toList

end DocumentSchema
