/-!
# Separated text

Pieces joined by one character, and text cut at every occurrence of it. Cutting loses nothing:
joining the pieces again gives the text (`join_cut`).
-/

set_option autoImplicit false

namespace DocumentSchema.Text

/-- Cuts at every occurrence of the separator; there is always one piece more than cuts. -/
def cut (separator : Char) : List Char → List (List Char)
  | [] => [[]]
  | c :: cs =>
    if c = separator then [] :: cut separator cs
    else
      match cut separator cs with
      | [] => [[c]]
      | piece :: rest => (c :: piece) :: rest

def join (separator : Char) : List (List Char) → List Char
  | [] => []
  | [piece] => piece
  | piece :: next :: rest => piece ++ separator :: join separator (next :: rest)

/-- The pieces of a text between the occurrences of a separator. -/
def split (separator : Char) (s : String) : List String :=
  (cut separator s.toList).map String.ofList

def joined (separator : Char) (pieces : List String) : String :=
  String.ofList (join separator (pieces.map String.toList))

/-- A text has at least one piece. -/
theorem cut_ne_nil (separator : Char) (cs : List Char) : cut separator cs ≠ [] := by
  cases cs with
  | nil => simp [cut]
  | cons c cs =>
    by_cases h : c = separator
    · simp [cut, h]
    · simp only [cut, h, if_false]
      split <;> simp

/-- The pieces of a text put together again are the text. -/
theorem join_cut (separator : Char) (cs : List Char) :
    join separator (cut separator cs) = cs := by
  induction cs with
  | nil => rfl
  | cons c cs ih =>
    by_cases h : c = separator
    · cases hcut : cut separator cs with
      | nil => exact absurd hcut (cut_ne_nil separator cs)
      | cons piece rest =>
        rw [hcut] at ih
        simp [cut, h, hcut, join, ih]
    · cases hcut : cut separator cs with
      | nil => exact absurd hcut (cut_ne_nil separator cs)
      | cons piece rest =>
        rw [hcut] at ih
        cases rest with
        | nil => simp_all [cut, join]
        | cons next rest => simp_all [cut, join]

end DocumentSchema.Text
