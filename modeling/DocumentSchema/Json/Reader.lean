import DocumentSchema.Json.Basic
import DocumentSchema.Text.Hex

/-!
# Reading JSON text

A reader of complete JSON texts. A number without point and exponent is an integer if 64 bits hold
it, and any other number is rounded to double precision; `-0` is no integer, because it has a sign.
Of two nested calls of the reader at least one takes a character, so twice the length of the text
bounds its depth.
-/

set_option autoImplicit false

namespace DocumentSchema.Json

def skipBlanks (cs : List Char) : List Char :=
  cs.dropWhile fun c => c = ' ' || c = '\n' || c = '\r' || c = '\t'

/-- The number that four hexadecimal digits stand for, with the text after them. -/
def readUnit? : List Char → Option (Nat × List Char)
  | a :: b :: c :: d :: rest => do
    let a ← Text.hexDigit? a
    let b ← Text.hexDigit? b
    let c ← Text.hexDigit? c
    let d ← Text.hexDigit? d
    return (((a.val * 16 + b.val) * 16 + c.val) * 16 + d.val, rest)
  | _ => none

def charOf? (n : Nat) : Option Char :=
  if h : n.isValidChar then some (Char.ofNatAux n h) else none

/-- Reads the digits of a numeric escape; two surrogates make one character. -/
def readCodePoint? (cs : List Char) : Option (Char × List Char) := do
  let (high, rest) ← readUnit? cs
  if 0xD800 ≤ high ∧ high < 0xDC00 then
    match rest with
    | '\\' :: 'u' :: rest =>
      let (low, rest) ← readUnit? rest
      if 0xDC00 ≤ low ∧ low < 0xE000 then
        let c ← charOf? (0x10000 + (high - 0xD800) * 0x400 + (low - 0xDC00))
        return (c, rest)
      else none
    | _ => none
  else
    let c ← charOf? high
    return (c, rest)

/-- The character that stands behind a backslash for another one. -/
def shortEscape? : Char → Option Char
  | '"' => some '"'
  | '\\' => some '\\'
  | '/' => some '/'
  | 'b' => some (Char.ofNat 8)
  | 'f' => some (Char.ofNat 12)
  | 'n' => some '\n'
  | 'r' => some '\r'
  | 't' => some '\t'
  | _ => none

/-- Reads the rest of a quoted text, up to and with its closing quote. -/
def readQuoted? : (fuel : Nat) → List Char → List Char → Option (String × List Char)
  | 0, _, _ => none
  | _ + 1, _, [] => none
  | fuel + 1, acc, c :: cs =>
    if c = '"' then some (String.ofList acc.reverse, cs)
    else if c = '\\' then
      match cs with
      | 'u' :: cs => do
        let (c, cs) ← readCodePoint? cs
        readQuoted? fuel (c :: acc) cs
      | e :: cs => do
        let c ← shortEscape? e
        readQuoted? fuel (c :: acc) cs
      | [] => none
    else if c.toNat < 32 then none
    else readQuoted? fuel (c :: acc) cs

def isNumberChar (c : Char) : Bool :=
  c.isDigit || c = '-' || c = '+' || c = '.' || c = 'e' || c = 'E'

def numberOf? (token : List Char) : Option Number := do
  let asFloat : Option Number := do
    let x ← (Floating.readChars? .binary64 token).bind Floating.toFinite?
    return .float x
  if token.any fun c => c = '.' || c = 'e' || c = 'E' then asFloat
  else
    let i ← Decimal.readSigned? token
    if i = 0 ∧ token.head? = some '-' then asFloat
    else
      match Number.ofInt? i with
      | some n => some n
      | none => asFloat

mutual

def readTree? : (fuel : Nat) → List Char → Option (Json × List Char)
  | 0, _ => none
  | fuel + 1, cs =>
    match skipBlanks cs with
    | 'n' :: 'u' :: 'l' :: 'l' :: rest => some (.null, rest)
    | 't' :: 'r' :: 'u' :: 'e' :: rest => some (.bool true, rest)
    | 'f' :: 'a' :: 'l' :: 's' :: 'e' :: rest => some (.bool false, rest)
    | '"' :: rest => do
      let (s, rest) ← readQuoted? fuel [] rest
      return (.string s, rest)
    | '[' :: rest =>
      match skipBlanks rest with
      | ']' :: rest => some (.array [], rest)
      | rest => do
        let (items, rest) ← readItems? fuel rest
        return (.array items, rest)
    | '{' :: rest =>
      match skipBlanks rest with
      | '}' :: rest => some (.object [], rest)
      | rest => do
        let (members, rest) ← readMembers? fuel rest
        return (.object (Entries.ofList members), rest)
    | rest => do
      let n ← numberOf? (rest.takeWhile isNumberChar)
      return (.number n, rest.dropWhile isNumberChar)

/-- Reads the items of an array up to and with its closing bracket. -/
def readItems? : (fuel : Nat) → List Char → Option (List Json × List Char)
  | 0, _ => none
  | fuel + 1, cs => do
    let (item, rest) ← readTree? fuel cs
    match skipBlanks rest with
    | ',' :: rest =>
      let (items, rest) ← readItems? fuel rest
      return (item :: items, rest)
    | ']' :: rest => return ([item], rest)
    | _ => none

/-- Reads the members of an object up to and with its closing brace. -/
def readMembers? : (fuel : Nat) → List Char → Option (List (String × Json) × List Char)
  | 0, _ => none
  | fuel + 1, cs =>
    match skipBlanks cs with
    | '"' :: rest => do
      let (name, rest) ← readQuoted? fuel [] rest
      match skipBlanks rest with
      | ':' :: rest =>
        let (item, rest) ← readTree? fuel rest
        match skipBlanks rest with
        | ',' :: rest =>
          let (members, rest) ← readMembers? fuel rest
          return ((name, item) :: members, rest)
        | '}' :: rest => return ([(name, item)], rest)
        | _ => none
      | _ => none
    | _ => none

end

def read? (s : String) : Option Json := do
  let (tree, rest) ← readTree? (2 * s.length + 2) s.toList
  if (skipBlanks rest).isEmpty then some tree else none

end DocumentSchema.Json
