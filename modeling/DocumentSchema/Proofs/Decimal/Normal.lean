import DocumentSchema.Floating.Text
import DocumentSchema.Proofs.Decimal.Numeral
import DocumentSchema.Proofs.Fraction

/-!
# Decimal numbers in normal form

A decimal number in normal form has no zero at either end. `normalize` brings any digits into that
form without changing the value (`toRat_normalize`), and undoes any padding with zeros
(`normalize_padded`). The positional text of a number in normal form pads its digits, so reading the
text gives the number again (`read?_positionalText`).
-/

set_option autoImplicit false

namespace DocumentSchema.Decimal

/-- No zero stands at either end of the digits, and zero has its point at the origin. -/
structure Normal (d : Decimal) : Prop where
  head : d.digits.head? ≠ some Digit.zero
  last : d.digits.getLast? ≠ some Digit.zero
  origin : d.digits = [] → d.point = 0

/-- The rational number that a decimal stands for. -/
theorem toRat_fraction (d : Decimal) :
    d.fraction.toRat = (value d.digits : ℚ) * 10 ^ (d.point - d.digits.length) := by
  rw [fraction, Fraction.toRat_scaleTen, Fraction.toRat_ofNat]

/-- Zero is in normal form. -/
theorem normal_zero : Normal zero := ⟨by simp [zero], by simp [zero], fun _ => rfl⟩

/-! ## Padding with zeros -/

/-- The digit zero is the numeral zero. -/
theorem Digit.zero_eq : Digit.zero = 0 := rfl

/-- Zeros in front are dropped, and the point moves with them. -/
theorem dropLeading_replicate (k : Nat) {ds : List Digit} (hds : ds ≠ [])
    (hhead : ds.head? ≠ some Digit.zero) (point : Int) :
    dropLeading (List.replicate k Digit.zero ++ ds) point = ⟨ds, point - k⟩ := by
  induction k generalizing point with
  | zero =>
    cases ds with
    | nil => exact absurd rfl hds
    | cons d ds =>
      have hd : d ≠ 0 := fun h => hhead (by rw [h]; rfl)
      simp [dropLeading, hd]
  | succ k ih =>
    have hstep : dropLeading (Digit.zero :: (List.replicate k Digit.zero ++ ds)) point =
        dropLeading (List.replicate k Digit.zero ++ ds) (point - 1) := by
      rw [dropLeading, if_pos Digit.zero_eq]
    rw [List.replicate_succ, List.cons_append, hstep, ih]
    congr 1
    push_cast
    ring

/-- Zeros at the end are dropped. -/
theorem dropTrailing_replicate (k : Nat) {ds : List Digit}
    (hlast : ds.getLast? ≠ some Digit.zero) :
    dropTrailing (ds ++ List.replicate k Digit.zero) = ds := by
  have hdrop : ∀ es : List Digit, es.head? ≠ some Digit.zero →
      (List.replicate k Digit.zero ++ es).dropWhile (· = 0) = es := by
    intro es hes
    induction k with
    | zero =>
      cases es with
      | nil => rfl
      | cons e es =>
        have he : e ≠ 0 := fun h => hes (by rw [h]; rfl)
        simp [he]
    | succ k ih => rw [List.replicate_succ, List.cons_append, List.dropWhile_cons]; exact ih
  rw [dropTrailing, List.reverse_append, List.reverse_replicate, hdrop, List.reverse_reverse]
  rwa [List.head?_reverse]

/-- Normalization drops zeros from both ends; each one in front moves the point. -/
theorem normalize_replicate (a b : Nat) {ds : List Digit} (hds : ds ≠ [])
    (hhead : ds.head? ≠ some Digit.zero) (hlast : ds.getLast? ≠ some Digit.zero) (point : Int) :
    normalize (List.replicate a Digit.zero ++ ds ++ List.replicate b Digit.zero) point =
      ⟨ds, point - a⟩ := by
  have hlast' : (List.replicate a Digit.zero ++ ds).getLast? ≠ some Digit.zero := by
    rw [List.getLast?_append]
    cases hl : ds.getLast? with
    | none => exact absurd (List.getLast?_eq_none_iff.1 hl) hds
    | some d => rwa [Option.some_or, ← hl]
  rw [normalize, dropTrailing_replicate b hlast', dropLeading_replicate a hds hhead]

/-- Nothing but zeros is zero. -/
theorem normalize_replicate_nil (k : Nat) (point : Int) :
    normalize (List.replicate k Digit.zero) point = zero := by
  have h : dropTrailing ([] ++ List.replicate k Digit.zero) = [] :=
    dropTrailing_replicate k (by simp)
  rw [List.nil_append] at h
  rw [normalize, h]
  rfl

/-- Padding the digits of a number in normal form with zeros changes nothing. -/
theorem normalize_padded {d : Decimal} (h : Normal d) (a b : Nat) :
    normalize (List.replicate a Digit.zero ++ d.digits ++ List.replicate b Digit.zero)
      (d.point + a) = d := by
  by_cases hds : d.digits = []
  · rw [hds, List.append_nil, List.replicate_append_replicate, normalize_replicate_nil]
    obtain ⟨digits, point⟩ := d
    obtain rfl : digits = [] := hds
    obtain rfl : point = 0 := h.origin rfl
    rfl
  · rw [normalize_replicate a b hds h.head h.last]
    congr 1
    ring

/-- Digits are zeros, or zeros around digits without a zero at either end. -/
theorem exists_padding (ds : List Digit) :
    (∃ k, ds = List.replicate k Digit.zero) ∨
      ∃ a es b, ds = List.replicate a Digit.zero ++ es ++ List.replicate b Digit.zero ∧ es ≠ [] ∧
        es.head? ≠ some Digit.zero ∧ es.getLast? ≠ some Digit.zero := by
  induction ds with
  | nil => exact Or.inl ⟨0, rfl⟩
  | cons d ds ih =>
    by_cases hd : d = Digit.zero
    · subst hd
      rcases ih with ⟨k, rfl⟩ | ⟨a, es, b, rfl, hes, hhead, hlast⟩
      · exact Or.inl ⟨k + 1, rfl⟩
      · exact Or.inr ⟨a + 1, es, b, rfl, hes, hhead, hlast⟩
    · have hhead : ∀ es : List Digit, (d :: es).head? ≠ some Digit.zero := fun es h =>
        hd (Option.some.inj h)
      rcases ih with ⟨k, rfl⟩ | ⟨a, es, b, rfl, hes, _, hlast⟩
      · exact Or.inr ⟨0, [d], k, by simp, by simp, hhead [],
          fun h => hd (Option.some.inj h)⟩
      · refine Or.inr ⟨0, d :: (List.replicate a Digit.zero ++ es), b, by simp, by simp, hhead _, ?_⟩
        rw [← List.cons_append, List.getLast?_append]
        cases hl : es.getLast? with
        | none => exact absurd (List.getLast?_eq_none_iff.1 hl) hes
        | some e => rwa [Option.some_or, ← hl]

/-- Zeros in front are worth nothing, and each one at the end a factor of ten. -/
theorem value_padded (a b : Nat) (es : List Digit) :
    value (List.replicate a Digit.zero ++ es ++ List.replicate b Digit.zero) =
      value es * 10 ^ b := by
  rw [value_append, value_append, value_replicate_zero, value_replicate_zero, List.length_replicate]
  ring

/-- A decimal is in normal form once it was normalised. -/
theorem normal_normalize (ds : List Digit) (point : Int) : Normal (normalize ds point) := by
  rcases exists_padding ds with ⟨k, rfl⟩ | ⟨a, es, b, rfl, hes, hhead, hlast⟩
  · rw [normalize_replicate_nil]
    exact normal_zero
  · rw [normalize_replicate a b hes hhead hlast]
    exact ⟨hhead, hlast, fun h => absurd h hes⟩

/-- Normalising keeps the value that the digits have at their point. -/
theorem toRat_normalize (ds : List Digit) (point : Int) :
    (normalize ds point).fraction.toRat = (value ds : ℚ) * 10 ^ (point - ds.length) := by
  rcases exists_padding ds with ⟨k, rfl⟩ | ⟨a, es, b, rfl, hes, hhead, hlast⟩
  · rw [normalize_replicate_nil, toRat_fraction, value_replicate_zero]
    simp [zero, value]
  · rw [normalize_replicate a b hes hhead hlast, toRat_fraction, value_padded]
    push_cast [List.length_append, List.length_replicate]
    rw [mul_assoc, ← zpow_natCast, ← zpow_add₀ (by norm_num)]
    congr 2
    ring

/-- A number scaled by a power of ten becomes a decimal in normal form. -/
theorem normal_ofScaled (n : Nat) (exponent : Int) : Normal (ofScaled n exponent) :=
  normal_normalize _ _

/-- The value of a whole number on a decimal grid. -/
theorem toRat_ofScaled (n : Nat) (exponent : Int) :
    (ofScaled n exponent).fraction.toRat = (n : ℚ) * 10 ^ exponent := by
  rw [ofScaled, toRat_normalize, value_numeral]
  congr 2
  ring

/-- The point of a positive number in normal form gives its order of magnitude. -/
theorem toRat_bounds {d : Decimal} (h : Normal d) (hd : d.digits ≠ []) :
    (10 : ℚ) ^ (d.point - 1) ≤ d.fraction.toRat ∧ d.fraction.toRat < 10 ^ d.point := by
  have hlow : 10 ^ (d.digits.length - 1) ≤ value d.digits := by
    cases hdigits : d.digits with
    | nil => exact absurd hdigits hd
    | cons e es => exact le_value (fun he => h.head (by rw [hdigits, he]; rfl)) es
  have hlength : 0 < d.digits.length := List.length_pos_iff.2 hd
  have hhigh := value_lt d.digits
  have hpow : (0 : ℚ) < 10 ^ (d.point - d.digits.length) := by positivity
  rw [toRat_fraction]
  constructor
  · calc (10 : ℚ) ^ (d.point - 1)
        = 10 ^ (((d.digits.length - 1 : Nat) : Int) + (d.point - d.digits.length)) := by
          congr 1; omega
      _ = 10 ^ (d.digits.length - 1) * 10 ^ (d.point - d.digits.length) := by
          rw [zpow_add₀ (by norm_num), zpow_natCast]
      _ ≤ value d.digits * 10 ^ (d.point - d.digits.length) := by
          exact mul_le_mul_of_nonneg_right (by exact_mod_cast hlow) hpow.le
  · calc (value d.digits : ℚ) * 10 ^ (d.point - d.digits.length)
        < 10 ^ d.digits.length * 10 ^ (d.point - d.digits.length) := by
          exact mul_lt_mul_of_pos_right (by exact_mod_cast hhigh) hpow
      _ = 10 ^ d.point := by
          rw [← zpow_natCast, ← zpow_add₀ (by norm_num)]
          congr 1
          ring

/-! ## Positional text -/

/-- A number is read from its digits with a point among them. -/
theorem read?_chars {whole : List Digit} (hwhole : whole ≠ []) (fractional : List Digit) :
    read? (chars whole ++ pointed (chars fractional)) =
      some (normalize (whole ++ fractional) whole.length) := by
  have hempty : whole.isEmpty = false := by simpa using hwhole
  cases fractional with
  | nil =>
    have hspan : spanDigits (chars whole ++ []) = (whole, []) := spanDigits_chars whole (by simp)
    have hpointed : pointed (chars []) = [] := rfl
    rw [hpointed, read?]
    simp only [hspan, readFractionDigits, hempty, Bool.false_and, Bool.false_eq_true, if_false,
      readExponent?, Option.map_some, Int.add_zero]
  | cons d ds =>
    have hpoint : Digit.ofChar? '.' = none := by decide
    have hspan : spanDigits (chars whole ++ '.' :: chars (d :: ds)) =
        (whole, '.' :: chars (d :: ds)) := spanDigits_chars whole (by simp [hpoint])
    have hrest : spanDigits (chars (d :: ds) ++ []) = (d :: ds, []) :=
      spanDigits_chars (d :: ds) (by simp)
    rw [List.append_nil] at hrest
    have hpointed : pointed (chars (d :: ds)) = '.' :: chars (d :: ds) := rfl
    rw [hpointed, read?]
    simp only [hspan, readFractionDigits, hrest, hempty, Bool.false_and, Bool.false_eq_true,
      if_false, readExponent?, Option.map_some, Int.add_zero]

/-- The digits before and after the point are those of the number, padded with zeros. -/
theorem exists_positional {d : Decimal} (h : Normal d) :
    ∃ whole fractional : List Digit, whole ≠ [] ∧
      (d.positionalText "").toList = chars whole ++ pointed (chars fractional) ∧
      normalize (whole ++ fractional) whole.length = d := by
  have htext : ∀ whole fractional : List Digit, d.wholeChars = chars whole →
      d.fractionChars = chars fractional →
      (d.positionalText "").toList = chars whole ++ pointed (chars fractional) := by
    intro whole fractional hwhole hfractional
    rw [positionalText, hwhole, hfractional]
    cases fractional with
    | nil => simp [chars, pointed]
    | cons e es => simp [chars]
  rcases le_or_gt d.point 0 with hpoint | hpoint
  · -- all digits stand after the point, and a zero before it
    have htoNat : d.point.toNat = 0 := by omega
    refine ⟨[Digit.zero], List.replicate (-d.point).toNat Digit.zero ++ d.digits, by simp,
      htext _ _ ?_ ?_, ?_⟩
    · simp [wholeChars, htoNat, chars, Digit.toChar, Digit.zero]
    · simp [fractionChars, htoNat]
    · have hpad := normalize_padded h ((-d.point).toNat + 1) 0
      rw [show d.point + (((-d.point).toNat + 1 : Nat) : Int) = 1 by push_cast; omega] at hpad
      simpa [List.replicate_succ] using hpad
  · -- the whole part has a digit for every place before the point
    have hfill : (d.digits.take d.point.toNat ++
        List.replicate (d.point.toNat - d.digits.length) Digit.zero).length = d.point.toNat := by
      simp only [List.length_append, List.length_take, List.length_replicate]
      omega
    have hwhole : d.digits.take d.point.toNat ++
        List.replicate (d.point.toNat - d.digits.length) Digit.zero ≠ [] := by
      intro hnil
      rw [hnil] at hfill
      simp only [List.length_nil] at hfill
      omega
    have hjoin : d.digits.take d.point.toNat ++
        List.replicate (d.point.toNat - d.digits.length) Digit.zero ++
        d.digits.drop d.point.toNat =
        d.digits ++ List.replicate (d.point.toNat - d.digits.length) Digit.zero := by
      rcases le_total d.digits.length d.point.toNat with hle | hle
      · rw [List.take_of_length_le hle, List.drop_eq_nil_of_le hle, List.append_nil]
      · rw [Nat.sub_eq_zero_of_le hle, List.replicate_zero, List.append_nil, List.append_nil,
          List.take_append_drop]
    refine ⟨_, d.digits.drop d.point.toNat, hwhole, htext _ _ ?_ ?_, ?_⟩
    · rw [wholeChars]
      split
      · rename_i hnil
        exact absurd hnil hwhole
      · rfl
    · rw [fractionChars, show (-d.point).toNat = 0 by omega]
      rfl
    · have hpad := normalize_padded h 0 (d.point.toNat - d.digits.length)
      rw [hjoin, hfill, show (d.point.toNat : Int) = d.point + (0 : Nat) by omega]
      simpa using hpad

/-- A number in normal form is read back from its positional text. -/
theorem read?_positionalText {d : Decimal} (h : Normal d) :
    read? (d.positionalText "").toList = some d := by
  obtain ⟨whole, fractional, hwhole, htext, hvalue⟩ := exists_positional h
  rw [htext, read?_chars hwhole, hvalue]

/-- Positional text begins with a digit and has digits and at most a point after it. -/
theorem positionalText_chars {d : Decimal} (h : Normal d) :
    (∃ (e : Digit) (cs : List Char), (d.positionalText "").toList = e.toChar :: cs) ∧
      ∀ c ∈ (d.positionalText "").toList, isNumberChar c = true := by
  obtain ⟨whole, fractional, hwhole, htext, _⟩ := exists_positional h
  rw [htext]
  constructor
  · cases whole with
    | nil => exact absurd rfl hwhole
    | cons e es => exact ⟨e, chars es ++ pointed (chars fractional), rfl⟩
  · intro c hc
    rcases List.mem_append.1 hc with hc | hc
    · exact isNumberChar_of_mem_chars hc
    · cases fractional with
      | nil => exact absurd hc List.not_mem_nil
      | cons e es =>
        rcases List.mem_cons.1 hc with rfl | hc
        · rfl
        · exact isNumberChar_of_mem_chars hc

end DocumentSchema.Decimal
