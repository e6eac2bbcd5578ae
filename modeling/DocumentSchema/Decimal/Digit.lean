/-!
# Decimal digits

Digits as characters and as numerals. `numeral n` is the shortest numeral of `n`, `value` reads a
numeral back, and `Digit.ofChar?` inverts `Digit.toChar` (`Digit.ofChar?_toChar`).
-/

set_option autoImplicit false

namespace DocumentSchema.Decimal

/-- A decimal digit. -/
abbrev Digit := Fin 10

def Digit.zero : Digit := ⟨0, by decide⟩

def Digit.toChar (d : Digit) : Char := Char.ofNat (48 + d.val)

def Digit.ofChar? (c : Char) : Option Digit :=
  if h : 48 ≤ c.toNat ∧ c.toNat < 58 then some ⟨c.toNat - 48, by omega⟩ else none

/-- A digit is read from its character. -/
theorem Digit.ofChar?_toChar (d : Digit) : Digit.ofChar? d.toChar = some d := by
  revert d
  decide

def value (ds : List Digit) : Nat :=
  ds.foldl (fun n d => 10 * n + d.val) 0

/-- Puts the digits of `n` before `acc`, at most `fuel` of them. -/
def digitsOnto : Nat → Nat → List Digit → List Digit
  | 0, _, acc => acc
  | fuel + 1, n, acc =>
    let acc := ⟨n % 10, Nat.mod_lt n (by decide)⟩ :: acc
    if n < 10 then acc else digitsOnto fuel (n / 10) acc

/-- The shortest numeral of a number; zero is one digit. -/
def numeral (n : Nat) : List Digit := digitsOnto (n + 1) n []

def chars (ds : List Digit) : List Char := ds.map Digit.toChar

def spanDigits : List Char → List Digit × List Char
  | [] => ([], [])
  | c :: cs =>
    match Digit.ofChar? c with
    | some d => (d :: (spanDigits cs).1, (spanDigits cs).2)
    | none => ([], c :: cs)

/-- Reads a text of one digit or more and nothing else. -/
def readDigits? (cs : List Char) : Option (List Digit) :=
  match spanDigits cs with
  | ([], _) => none
  | (ds, []) => some ds
  | (_, _ :: _) => none

end DocumentSchema.Decimal
