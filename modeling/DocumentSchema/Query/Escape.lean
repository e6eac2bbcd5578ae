/-!
# Escapes in tags

Between the braces of a tag clause punctuation and blanks would end a token, so each of them has a
backslash in front. Dropping the backslashes gives the text back (`unescape_escape`).
-/

set_option autoImplicit false

namespace DocumentSchema.Query

def specialChars : List Char :=
  [',', '.', '<', '>', '{', '}', '[', ']', '"', '\'', ':', ';', '!', '@', '#', '$', '%', '^', '&',
    '*', '(', ')', '-', '+', '=', '~', '|', '/', '\\', '?', ' ']

def escape : List Char → List Char
  | [] => []
  | c :: cs => if c ∈ specialChars then '\\' :: c :: escape cs else c :: escape cs

/-- Drops the backslash of every escaped character; one at the very end stays. -/
def unescape : List Char → List Char
  | [] => []
  | '\\' :: c :: cs => c :: unescape cs
  | c :: cs => c :: unescape cs

def escapeText (s : String) : String := String.ofList (escape s.toList)

def unescapeText (s : String) : String := String.ofList (unescape s.toList)

/-- An escaped text without its backslashes is the text. -/
theorem unescape_escape (cs : List Char) : unescape (escape cs) = cs := by
  induction cs with
  | nil => rfl
  | cons c cs ih =>
    by_cases h : c ∈ specialChars
    · simp [escape, h, unescape, ih]
    · have hc : c ≠ '\\' := fun e => h (e ▸ by decide)
      rw [escape, if_neg h, unescape.eq_3 _ _ (fun _ _ e _ => hc e), ih]

end DocumentSchema.Query
