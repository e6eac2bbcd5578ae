import DocumentSchema.Decimal.Integer
import DocumentSchema.Time.Calendar
import DocumentSchema.Time.Instant

/-!
# Dates and times as text

The profile of RFC 3339. The writer always gives the offset `+00:00` and a fraction of no, three,
six or nine digits, as few as are exact; a year that four digits cannot hold gets a sign. The reader
takes a year of four digits, any fraction (digits after the ninth count for nothing), a second 60 in
any minute, and an offset below a day.
-/

set_option autoImplicit false

namespace DocumentSchema.Instant

open DocumentSchema.Decimal

def paddedChars : (count : Nat) → Nat → List Char
  | 0, _ => []
  | count + 1, n => paddedChars count (n / 10) ++ [Digit.toChar ⟨n % 10, Nat.mod_lt n (by decide)⟩]

def padded (count n : Nat) : List Char :=
  chars (List.replicate (count - (numeral n).length) Digit.zero ++ numeral n)

/-- The year: four digits, or a sign and at least four digits. -/
def yearChars (year : Int) : List Char :=
  if 0 ≤ year ∧ year ≤ 9999 then padded 4 year.natAbs
  else (if year < 0 then '-' else '+') :: padded 4 year.natAbs

def fractionChars (nanos : Nat) : List Char :=
  if nanos = 0 then []
  else if nanos % nanosPerMilli = 0 then '.' :: paddedChars 3 (nanos / nanosPerMilli)
  else if nanos % nanosPerMicro = 0 then '.' :: paddedChars 6 (nanos / nanosPerMicro)
  else '.' :: paddedChars 9 nanos

/-- The text of an instant; a leap second is written as second 60. -/
def text (t : Instant) : String :=
  let date := CalendarDate.ofDayNumber (t.seconds / 86400)
  let secondOfDay := (t.seconds % 86400).toNat
  let leap := nanosPerSecond ≤ t.nanos
  let second := secondOfDay % 60 + (if leap then 1 else 0)
  let nanos := if leap then t.nanos - nanosPerSecond else t.nanos
  String.ofList (yearChars date.year ++ '-' :: paddedChars 2 date.month ++ '-' ::
    paddedChars 2 date.day ++ 'T' :: paddedChars 2 (secondOfDay / 3600) ++ ':' ::
    paddedChars 2 (secondOfDay / 60 % 60) ++ ':' :: paddedChars 2 second ++
    fractionChars nanos ++ ['+', '0', '0', ':', '0', '0'])

/-- Reads exactly `count` digits as a number, with the text after them. -/
def takeNumber? (count : Nat) (cs : List Char) : Option (Nat × List Char) := do
  let ds ← (cs.take count).mapM Digit.ofChar?
  if ds.length = count then some (value ds, cs.drop count) else none

def takeChar? (allowed : List Char) : List Char → Option (List Char)
  | c :: cs => if c ∈ allowed then some cs else none
  | [] => none

/-- Reads the fraction of a second, if there is one, as nanoseconds. -/
def takeFraction? : List Char → Option (Nat × List Char)
  | '.' :: cs =>
    let (ds, rest) := spanDigits cs
    let kept := ds.take 9
    if ds.isEmpty then none else some (value kept * Nat.pow 10 (9 - kept.length), rest)
  | cs => some (0, cs)

/-- Reads an offset in seconds at the end of a text: `Z`, or a sign with hours and minutes. -/
def takeOffset? : List Char → Option Int
  | ['Z'] => some 0
  | ['z'] => some 0
  | sign :: cs => do
    let direction : Int ←
      if sign = '+' then some 1 else if sign = '-' ∨ sign = '\u2212' then some (-1) else none
    let (hours, cs) ← takeNumber? 2 cs
    let cs ← takeChar? [':'] cs
    let (minutes, cs) ← takeNumber? 2 cs
    if hours < 24 ∧ minutes < 60 ∧ cs.isEmpty then
      some (direction * (hours * 3600 + minutes * 60 : Nat))
    else none
  | [] => none

def read? (s : String) : Option Instant := do
  let (year, cs) ← takeNumber? 4 s.toList
  let cs ← takeChar? ['-'] cs
  let (month, cs) ← takeNumber? 2 cs
  let cs ← takeChar? ['-'] cs
  let (day, cs) ← takeNumber? 2 cs
  let cs ← takeChar? ['T', 't', ' '] cs
  let (hour, cs) ← takeNumber? 2 cs
  let cs ← takeChar? [':'] cs
  let (minute, cs) ← takeNumber? 2 cs
  let cs ← takeChar? [':'] cs
  let (second, cs) ← takeNumber? 2 cs
  let (nanos, cs) ← takeFraction? cs
  let offset ← takeOffset? cs
  let date : CalendarDate := ⟨year, month, day⟩
  if date.isValid && hour < 24 && minute < 60 && second ≤ 60 then
    let leap := second = 60
    let secondOfDay := hour * 3600 + minute * 60 + (if leap then 59 else second)
    ofParts? (date.dayNumber * 86400 + (secondOfDay : Nat) - offset)
      (if leap then nanos + nanosPerSecond else nanos)
  else none

end DocumentSchema.Instant
