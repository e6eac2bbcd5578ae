import DocumentSchema.Decimal.Integer
import DocumentSchema.Text.Blank
import Mathlib.Algebra.Order.Ring.Nat
import Mathlib.Tactic.Linarith
import Mathlib.Tactic.Ring

/-!
# Numerals

A numeral stands for its number (`value_numeral`). Written as characters, digits are read back
whatever follows them, as long as it is no digit (`spanDigits_chars`), so integers and counts are
read back from their text (`readSigned?_intText`, `readCount?_natText`). The characters of numbers
are never blank, so trimming leaves their text alone.
-/

set_option autoImplicit false

namespace DocumentSchema.Decimal

/-! ## The number of a numeral -/

/-- Digits are worth their own value beyond what stands before them. -/
theorem foldl_value (ds : List Digit) (n : Nat) :
    ds.foldl (fun n d => 10 * n + d.val) n = n * 10 ^ ds.length + value ds := by
  induction ds generalizing n with
  | nil => simp [value]
  | cons d ds ih =>
    rw [value, List.foldl_cons, List.foldl_cons, ih, ih (10 * 0 + d.val), List.length_cons, pow_succ]
    ring

/-- Digits in front of others are worth a power of ten each for the others. -/
theorem value_append (ds es : List Digit) :
    value (ds ++ es) = value ds * 10 ^ es.length + value es := by
  rw [value, List.foldl_append, foldl_value]
  rfl

/-- The first digit is worth a power of ten for all that follow it. -/
theorem value_cons (d : Digit) (ds : List Digit) :
    value (d :: ds) = d.val * 10 ^ ds.length + value ds := by
  rw [value, List.foldl_cons, foldl_value]
  simp

/-- Zeros are worth nothing. -/
theorem value_replicate_zero (k : Nat) : value (List.replicate k Digit.zero) = 0 := by
  induction k with
  | zero => rfl
  | succ k ih => rw [List.replicate_succ, value_cons, ih]; simp [Digit.zero]

/-- A numeral is less than the power of ten with as many zeros. -/
theorem value_lt (ds : List Digit) : value ds < 10 ^ ds.length := by
  induction ds with
  | nil => simp [value]
  | cons d ds ih =>
    rw [value_cons, List.length_cons, pow_succ]
    have hd : d.val * 10 ^ ds.length ≤ 9 * 10 ^ ds.length := Nat.mul_le_mul_right _ (by omega)
    linarith

/-- A numeral without leading zeros is at least the power of ten of its first digit. -/
theorem le_value {d : Digit} (hd : d ≠ 0) (ds : List Digit) : 10 ^ ds.length ≤ value (d :: ds) := by
  have hpos : 1 ≤ d.val := Nat.one_le_iff_ne_zero.2 fun h => hd (Fin.ext h)
  have hfirst : 1 * 10 ^ ds.length ≤ d.val * 10 ^ ds.length := Nat.mul_le_mul_right _ hpos
  rw [value_cons]
  linarith

/-! ## The numeral of a number -/

/-- Digits are put in front of what is there already. -/
theorem digitsOnto_append (fuel n : Nat) (acc : List Digit) :
    digitsOnto fuel n acc = digitsOnto fuel n [] ++ acc := by
  induction fuel generalizing n acc with
  | zero => rfl
  | succ fuel ih =>
    simp only [digitsOnto]
    split
    · rfl
    · rw [ih, ih (n / 10) [_], List.append_assoc]
      rfl

/-- More fuel than the number does not change its digits. -/
theorem digitsOnto_fuel {fuel fuel' n : Nat} (h : n < fuel) (h' : n < fuel') :
    digitsOnto fuel n [] = digitsOnto fuel' n [] := by
  induction fuel generalizing n fuel' with
  | zero => omega
  | succ fuel ih =>
    cases fuel' with
    | zero => omega
    | succ fuel' =>
      simp only [digitsOnto]
      split
      · rfl
      · have hdigits : digitsOnto fuel (n / 10) [] = digitsOnto fuel' (n / 10) [] :=
          ih (by omega) (by omega)
        rw [digitsOnto_append, hdigits, ← digitsOnto_append]

/-- The last digit of a number stands at the end of its numeral. -/
theorem numeral_eq (n : Nat) :
    numeral n = (if n < 10 then [] else numeral (n / 10)) ++ [⟨n % 10, Nat.mod_lt n (by decide)⟩] := by
  unfold numeral
  rw [digitsOnto]
  split
  · rfl
  · have hfuel : digitsOnto n (n / 10) [] = digitsOnto (n / 10 + 1) (n / 10) [] :=
      digitsOnto_fuel (by omega) (by omega)
    rw [digitsOnto_append, hfuel]

/-- A numeral has at least one digit. -/
theorem numeral_ne_nil (n : Nat) : numeral n ≠ [] := by
  rw [numeral_eq]
  simp

/-- A numeral is worth the number that it was made from. -/
theorem value_numeral (n : Nat) : value (numeral n) = n := by
  induction n using Nat.strong_induction_on with
  | _ n ih =>
    rw [numeral_eq, value_append]
    split
    · simp [value]
      omega
    · rw [ih (n / 10) (by omega)]
      simp [value]
      omega

/-! ## Digits as characters -/

/-- The characters that decimals are written with: digits, the point and the sign. -/
def isNumberChar (c : Char) : Bool := (Digit.ofChar? c).isSome || c = '.' || c = '-'

/-- A digit is one of the characters of numbers. -/
theorem isNumberChar_toChar (d : Digit) : isNumberChar d.toChar = true := by
  simp [isNumberChar, Digit.ofChar?_toChar]

/-- Digits are among the characters of numbers. -/
theorem isNumberChar_of_mem_chars {ds : List Digit} {c : Char} (h : c ∈ chars ds) :
    isNumberChar c = true := by
  obtain ⟨d, _, rfl⟩ := List.mem_map.1 h
  exact isNumberChar_toChar d

/-- No character of a number is blank. -/
theorem not_isBlank_of_isNumberChar {c : Char} (h : isNumberChar c = true) :
    Text.isBlank c = false := by
  simp only [isNumberChar, Bool.or_eq_true, decide_eq_true_eq] at h
  rcases h with (h | rfl) | rfl
  · unfold Digit.ofChar? at h
    split at h
    · simp [Text.isBlank, Text.blankRanges]
      omega
    · exact absurd h Bool.false_ne_true
  · decide
  · decide

/-- A text without blanks has none at its ends. -/
theorem trim_eq_self {cs : List Char} (h : ∀ c ∈ cs, Text.isBlank c = false) : Text.trim cs = cs := by
  have hdrop : ∀ {cs : List Char}, (∀ c ∈ cs, Text.isBlank c = false) →
      cs.dropWhile Text.isBlank = cs := by
    intro cs hcs
    cases cs with
    | nil => rfl
    | cons c cs => rw [List.dropWhile_cons, hcs c List.mem_cons_self]; rfl
  rw [Text.trim, hdrop h, hdrop fun c hc => h c (List.mem_reverse.1 hc), List.reverse_reverse]

/-- Digits are read up to the first character that is none. -/
theorem spanDigits_chars (ds : List Digit) {rest : List Char}
    (hrest : ∀ c ∈ rest.head?, Digit.ofChar? c = none) :
    spanDigits (chars ds ++ rest) = (ds, rest) := by
  induction ds with
  | nil =>
    cases rest with
    | nil => rfl
    | cons c rest =>
      have hc : Digit.ofChar? c = none := hrest c rfl
      simp [chars, spanDigits, hc]
  | cons d ds ih =>
    rw [chars] at ih
    rw [chars, List.map_cons, List.cons_append, spanDigits, Digit.ofChar?_toChar, ih]

/-- Digits are read back from their characters. -/
theorem readDigits?_chars {ds : List Digit} (h : ds ≠ []) : readDigits? (chars ds) = some ds := by
  have hspan : spanDigits (chars ds ++ []) = (ds, []) := spanDigits_chars ds (by simp)
  rw [List.append_nil] at hspan
  cases ds with
  | nil => exact absurd rfl h
  | cons d ds => rw [readDigits?, hspan]

/-- No digit is a sign. -/
theorem toChar_ne_sign (d : Digit) : d.toChar ≠ '-' ∧ d.toChar ≠ '+' := by
  revert d
  decide

/-- A number that opens with a digit is read without a sign. -/
theorem readSigned?_of_digit (d : Digit) (cs : List Char) :
    readSigned? (d.toChar :: cs) = (readUnsigned? (d.toChar :: cs)).map Int.ofNat := by
  obtain ⟨hminus, hplus⟩ := toChar_ne_sign d
  rw [readSigned?]
  · cases readUnsigned? (d.toChar :: cs) <;> rfl
  · intro rest h
    exact hminus (List.cons.inj h).1
  · intro rest h
    exact hplus (List.cons.inj h).1

/-- A numeral is read as the number that it was made from. -/
theorem readUnsigned?_numeral (n : Nat) : readUnsigned? (chars (numeral n)) = some n := by
  rw [readUnsigned?, readDigits?_chars (numeral_ne_nil n), Option.map_some, value_numeral]

/-- The characters of a natural number are those of its digits. -/
theorem toList_natText (n : Nat) : (natText n).toList = chars (numeral n) := String.toList_ofList

/-- The text of a natural number has digits only. -/
theorem exists_of_mem_natText {n : Nat} {c : Char} (h : c ∈ (natText n).toList) :
    ∃ d : Digit, c = d.toChar := by
  rw [toList_natText] at h
  obtain ⟨d, _, rfl⟩ := List.mem_map.1 h
  exact ⟨d, rfl⟩

/-- The text of a natural number is not empty. -/
theorem natText_ne_empty (n : Nat) : natText n ≠ "" := by
  intro h
  have hchars : chars (numeral n) = [] := by rw [← toList_natText, h]; rfl
  exact numeral_ne_nil n (List.map_eq_nil_iff.1 hchars)

/-- A count that fits 64 bits is read from its text. -/
theorem readCount?_natText {n : Nat} (h : n < 18446744073709551616) :
    readCount? (natText n).toList = some n := by
  rw [readCount?]
  · rw [toList_natText, readUnsigned?_numeral]
    exact if_pos (decide_eq_true h)
  · intro rest hchars
    have hplus : '+' ∈ (natText n).toList := by
      rw [hchars]
      exact List.mem_cons_self
    obtain ⟨d, hd⟩ := exists_of_mem_natText hplus
    exact (toChar_ne_sign d).2 hd.symm

/-- Characters that are all read as digits are digits. -/
theorem isSome_of_mem_spanDigits {cs : List Char} {ds : List Digit} (h : spanDigits cs = (ds, []))
    {c : Char} (hc : c ∈ cs) : (Digit.ofChar? c).isSome = true := by
  induction cs generalizing ds with
  | nil => cases hc
  | cons d cs ih =>
    rw [spanDigits] at h
    cases hd : Digit.ofChar? d with
    | none =>
      rw [hd] at h
      cases h
    | some digit =>
      rw [hd] at h
      obtain ⟨_, hrest⟩ := Prod.mk.inj h
      rcases List.mem_cons.1 hc with rfl | hc
      · rw [hd, Option.isSome_some]
      · exact ih (Prod.ext rfl hrest) hc

/-- A text that is read as a count is of digits, after a plus sign maybe. -/
theorem mem_of_readCount? {cs : List Char} {n : Nat} (h : readCount? cs = some n) {c : Char}
    (hc : c ∈ cs) : c = '+' ∨ (Digit.ofChar? c).isSome = true := by
  have hdigits : ∀ {digits : List Char}, (readUnsigned? digits).isSome = true → c ∈ digits →
      (Digit.ofChar? c).isSome = true := by
    intro digits hread hc
    rw [readUnsigned?, readDigits?, Option.isSome_map] at hread
    cases hspan : spanDigits digits with
    | mk ds rest =>
      cases rest with
      | nil => exact isSome_of_mem_spanDigits hspan hc
      | cons next rest =>
        rw [hspan] at hread
        cases ds <;> cases hread
  unfold readCount? at h
  dsimp only at h
  obtain ⟨hread, _⟩ := Option.filter_eq_some_iff.1 h
  split at hread
  · rcases List.mem_cons.1 hc with rfl | hc
    · exact Or.inl rfl
    · exact Or.inr (hdigits (Option.isSome_of_eq_some hread) hc)
  · exact Or.inr (hdigits (Option.isSome_of_eq_some hread) hc)

/-- The characters of an integer: a sign if it is negative, then a numeral. -/
theorem toList_intText (i : Int) :
    (intText i).toList = (if i < 0 then ['-'] else []) ++ chars (numeral i.natAbs) := by
  rw [intText]
  split <;> simp [natText]

/-- An integer is read from its text. -/
theorem readSigned?_intText (i : Int) : readSigned? (intText i).toList = some i := by
  rw [toList_intText]
  split
  · rw [List.singleton_append, readSigned?, readUnsigned?_numeral]
    show some (-(i.natAbs : Int)) = some i
    congr 1
    omega
  · rw [List.nil_append]
    cases hnum : numeral i.natAbs with
    | nil => exact absurd hnum (numeral_ne_nil _)
    | cons d ds =>
      rw [chars, List.map_cons, readSigned?_of_digit, ← List.map_cons, ← chars, ← hnum,
        readUnsigned?_numeral, Option.map_some]
      congr 1
      show (i.natAbs : Int) = i
      omega

/-- The text of an integer has characters of numbers only. -/
theorem isNumberChar_of_mem_intText {i : Int} {c : Char} (h : c ∈ (intText i).toList) :
    isNumberChar c = true := by
  rw [toList_intText, List.mem_append] at h
  rcases h with hsign | hdigit
  · split at hsign
    · obtain rfl := List.mem_singleton.1 hsign
      rfl
    · exact absurd hsign List.not_mem_nil
  · exact isNumberChar_of_mem_chars hdigit

/-- The text of an integer has no blanks at its ends. -/
theorem trimmed_intText (i : Int) : Text.trimmed (intText i) = (intText i).toList :=
  trim_eq_self fun _ hc => not_isBlank_of_isNumberChar (isNumberChar_of_mem_intText hc)

end DocumentSchema.Decimal

namespace DocumentSchema.Int128

/-- An integer of 128 bits is made of its own value. -/
theorem ofInt?_val (i : Int128) : ofInt? i.val = some i := by
  rw [ofInt?, dif_pos ⟨i.lower, i.upper⟩]

/-- A 128-bit integer is read back from its text, blanks around it or not. -/
theorem read_text (i : Int128) :
    (Decimal.readSigned? (Text.trimmed i.text)).bind ofInt? = some i := by
  rw [text, Decimal.trimmed_intText, Decimal.readSigned?_intText, Option.bind_some, ofInt?_val]

end DocumentSchema.Int128
