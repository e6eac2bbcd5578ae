import DocumentSchema.Text.Hex
import DocumentSchema.Text.Invisible

/-!
# Quoted text

A text in double quotes as messages show it. Quotes and backslashes have a backslash in front, the
usual controls their letters, and characters without a picture of their own their numbers.
-/

set_option autoImplicit false

namespace DocumentSchema.Text

/-- The characters that stand for a character between quotes. -/
def quotedChar (c : Char) : List Char :=
  if c = '"' then ['\\', '"']
  else if c = '\\' then ['\\', '\\']
  else if c = '\n' then ['\\', 'n']
  else if c = '\r' then ['\\', 'r']
  else if c = '\t' then ['\\', 't']
  else if c.toNat = 0 then ['\\', '0']
  else if isInvisible c then ['\\', 'u', '{'] ++ hexNumeral c.toNat ++ ['}']
  else [c]

def quoted (s : String) : String :=
  String.ofList ('"' :: s.toList.flatMap quotedChar ++ ['"'])

end DocumentSchema.Text
