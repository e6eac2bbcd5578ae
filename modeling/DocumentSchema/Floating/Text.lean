import DocumentSchema.Floating.Shortest

/-!
# Numbers as text

A layout says which exponents are written positionally and what stands for a missing fraction. The
plain layout never has an exponent; the layout of JSON text keeps a fraction digit and leaves the
positional form for very large and very small numbers. `read?` accepts either, and more.
-/

set_option autoImplicit false

namespace DocumentSchema

/-- How the text of a decimal number looks. -/
structure Layout where
  /-- The decision between two equally near shortest candidates. -/
  tie : Floating.Tie
  /-- Whether the decimal exponent of the leading digit is written positionally. -/
  positional : Int → Bool
  wholeSuffix : String

/-- No exponent ever, and whole numbers without a fraction. -/
def Layout.plain : Layout := ⟨.up, fun _ => true, ""⟩

/-- JSON text: a fraction digit always, and an exponent outside `-5 … 15`. -/
def Layout.json : Layout := ⟨.even, fun e => -5 ≤ e ∧ e ≤ 15, ".0"⟩

namespace Decimal

/-- The digits before the point; none is written as a zero. -/
def wholeChars (d : Decimal) : List Char :=
  let places := d.point.toNat
  match d.digits.take places ++ List.replicate (places - d.digits.length) Digit.zero with
  | [] => ['0']
  | ds => chars ds

def fractionChars (d : Decimal) : List Char :=
  chars (List.replicate (-d.point).toNat Digit.zero ++ d.digits.drop d.point.toNat)

def pointed : List Char → List Char
  | [] => []
  | cs => '.' :: cs

def positionalText (wholeSuffix : String) (d : Decimal) : String :=
  match d.fractionChars with
  | [] => String.ofList d.wholeChars ++ wholeSuffix
  | cs => String.ofList (d.wholeChars ++ pointed cs)

/-- The number written with one digit before the point and a signed exponent. -/
def scientificText (d : Decimal) : String :=
  let exponent := d.point - 1
  let sign := if exponent < 0 then "-" else "+"
  String.ofList (chars (d.digits.take 1) ++ pointed (chars (d.digits.drop 1)))
    ++ "e" ++ sign ++ natText exponent.natAbs

def text (layout : Layout) (d : Decimal) : String :=
  if d.digits.isEmpty || layout.positional (d.point - 1) then d.positionalText layout.wholeSuffix
  else d.scientificText

end Decimal

namespace Floating

variable {f : Format}

def Finite.text (layout : Layout) (x : Finite f) : String :=
  (if x.negative then "-" else "") ++ (x.shortest layout.tie).text layout

def text : Floating f → String
  | .finite x => x.text .plain
  | .infinite true => "-inf"
  | .infinite false => "inf"
  | .nan _ => "NaN"

/-- Reads an unsigned number or one of the names of the special numbers, in any case. -/
def readUnsigned? (f : Format) (negative : Bool) (cs : List Char) : Option (Floating f) :=
  match Decimal.read? cs with
  | some d => some (ofDecimal f negative d)
  | none =>
    let name := String.ofList (cs.map Char.toLower)
    if name = "inf" ∨ name = "infinity" then some (.infinite negative)
    else if name = "nan" then some (.nan negative)
    else none

/-- Reads a number with an optional sign, rounding once. -/
def readChars? (f : Format) : List Char → Option (Floating f)
  | '-' :: cs => readUnsigned? f true cs
  | '+' :: cs => readUnsigned? f false cs
  | cs => readUnsigned? f false cs

def read? (f : Format) (s : String) : Option (Floating f) := readChars? f s.toList

/-- The text of a stored number: an integer below `10 ^ 15` is written as an integer, so both zeros
are `0`, and any other number in the plain layout. -/
def token (x : Binary64) : String :=
  match x.toFinite?.bind Finite.toInt? with
  | some i => if i.natAbs < 1000000000000000 then Decimal.intText i else x.text
  | none => x.text

end Floating

end DocumentSchema
