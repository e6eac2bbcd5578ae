import DocumentSchema.Proofs.Decimal.Normal
import DocumentSchema.Proofs.Floating.Rounding

/-!
# Numbers read back from their text

Whatever decimal `shortest` gives rounds back to the number (`ofDecimal_shortest`), so every finite
double-precision number is read back from its plain text (`readChars?_text`). The text of a stored
number writes both zeros alike, so it is read back up to numeric equality (`readChars?_token`).
-/

set_option autoImplicit false

namespace DocumentSchema.Floating

/-- A decimal with the value of a number of double precision is that number. -/
theorem ofDecimal_eq {x : Finite64} {d : Decimal} (hd : d.Normal)
    (h : d.fraction.toRat = x.magnitude.toRat) : ofDecimal .binary64 x.negative d = .finite x := by
  -- the point lies where neither shortcut of the reader applies
  have hpoint : d.point ≤ 1025 ∧ -1074 ≤ d.point := by
    by_cases hdigits : d.digits = []
    · rw [hd.origin hdigits]
      decide
    obtain ⟨hlow, hhigh⟩ := Decimal.toRat_bounds hd hdigits
    obtain ⟨hbound, hmin, hmax, _⟩ := x.canonical
    rw [h, Finite.toRat_magnitude] at hlow hhigh
    have hpow : (0 : ℚ) < 2 ^ x.exponent := by positivity
    have hmantissa : x.mantissa ≠ 0 := by
      intro hzero
      rw [hzero, Nat.cast_zero, zero_mul] at hlow
      have hpos : (0 : ℚ) < 10 ^ (d.point - 1) := by positivity
      linarith
    constructor
    · by_contra hgt
      have hlarge : (x.mantissa : ℚ) * 2 ^ x.exponent < 2 ^ (1024 : Int) := by
        calc (x.mantissa : ℚ) * 2 ^ x.exponent < 2 ^ (53 : Int) * 2 ^ x.exponent := by
              exact mul_lt_mul_of_pos_right (by exact_mod_cast hbound) hpow
          _ = 2 ^ (53 + x.exponent) := (zpow_add₀ two_ne_zero _ _).symm
          _ ≤ 2 ^ (1024 : Int) :=
              zpow_le_zpow_right₀ one_le_two (by simp only [Format.binary64] at hmax; omega)
      have hsmall : (2 : ℚ) ^ (1024 : Int) ≤ 10 ^ (d.point - 1) := by
        calc (2 : ℚ) ^ (1024 : Int) ≤ 10 ^ (1024 : Int) :=
              zpow_le_zpow_left₀ (by norm_num) (by norm_num) (by norm_num)
          _ ≤ 10 ^ (d.point - 1) := zpow_le_zpow_right₀ (by norm_num) (by omega)
      linarith
    · by_contra hlt
      have hlarge : (2 : ℚ) ^ (-1074 : Int) ≤ x.mantissa * 2 ^ x.exponent := by
        calc (2 : ℚ) ^ (-1074 : Int) ≤ 2 ^ x.exponent := zpow_le_zpow_right₀ one_le_two hmin
          _ = 1 * 2 ^ x.exponent := (one_mul _).symm
          _ ≤ x.mantissa * 2 ^ x.exponent := by
              have : (1 : ℚ) ≤ x.mantissa := by exact_mod_cast Nat.one_le_iff_ne_zero.2 hmantissa
              exact mul_le_mul_of_nonneg_right this hpow.le
      have hsmall : (10 : ℚ) ^ d.point ≤ 2 ^ (-1074 : Int) := by
        calc (10 : ℚ) ^ d.point ≤ 10 ^ (-1074 : Int) :=
              zpow_le_zpow_right₀ (by norm_num) (by omega)
          _ = (10 ^ (1074 : Int))⁻¹ := zpow_neg _ _
          _ ≤ (2 ^ (1074 : Int))⁻¹ :=
              inv_anti₀ (by positivity)
                (zpow_le_zpow_left₀ (by norm_num) (by norm_num) (by norm_num))
          _ = 2 ^ (-1074 : Int) := (zpow_neg _ _).symm
      linarith
  rw [ofDecimal, if_neg (by simp only [Format.binary64]; omega),
    if_neg (by simp only [Format.binary64]; omega)]
  exact round_eq (by decide) h

namespace Finite

/-- A candidate for the text of a number is in normal form and read back as the number. -/
theorem normal_of_candidate? {f : Format} {tie : Tie} {x : Finite f} {exponent : Int} {d : Decimal}
    (h : x.candidate? tie exponent = some d) : d.Normal ∧ x.readsBack d = true := by
  simp only [candidate?] at h
  split at h
  · rename_i hlower hupper
    obtain rfl := Option.some.inj h
    split
    · exact ⟨Decimal.normal_ofScaled _ _, hlower⟩
    · exact ⟨Decimal.normal_ofScaled _ _, hupper⟩
  · rename_i hlower _
    obtain rfl := Option.some.inj h
    exact ⟨Decimal.normal_ofScaled _ _, hlower⟩
  · rename_i _ hupper
    obtain rfl := Option.some.inj h
    exact ⟨Decimal.normal_ofScaled _ _, hupper⟩
  · exact absurd h (by simp)

/-- The exact decimal of a number is in normal form and has its value. -/
theorem toRat_exactDecimal {f : Format} (x : Finite f) :
    x.exactDecimal.Normal ∧ x.exactDecimal.fraction.toRat = x.magnitude.toRat := by
  rw [exactDecimal, toRat_magnitude]
  split
  · rename_i hexponent
    refine ⟨Decimal.normal_ofScaled _ _, ?_⟩
    rw [Decimal.toRat_ofScaled, Nat.pow_eq]
    push_cast
    rw [mul_one, ← zpow_natCast, Int.toNat_of_nonneg hexponent]
  · rename_i hexponent
    refine ⟨Decimal.normal_ofScaled _ _, ?_⟩
    obtain ⟨n, hn⟩ : ∃ n : Nat, x.exponent = -(n : Int) := ⟨(-x.exponent).toNat, by omega⟩
    rw [Decimal.toRat_ofScaled, Nat.pow_eq, hn, neg_neg, Int.toNat_natCast]
    push_cast
    -- ten is two times five
    have hten : (10 : ℚ) ^ n = 2 ^ n * 5 ^ n := by rw [← mul_pow]; norm_num
    rw [zpow_neg, zpow_neg, zpow_natCast, zpow_natCast, hten]
    field_simp

/-- The shortest decimal of a number rounds back to the number. -/
theorem ofDecimal_shortest (tie : Tie) (x : Finite64) :
    (x.shortest tie).Normal ∧
      ofDecimal .binary64 x.negative (x.shortest tie) = Floating.finite x := by
  rw [shortest]
  split
  · rename_i hzero
    refine ⟨Decimal.normal_zero, ofDecimal_eq Decimal.normal_zero ?_⟩
    rw [Decimal.toRat_fraction, toRat_magnitude, hzero]
    simp [Decimal.zero, Decimal.value]
  · dsimp only
    cases hfound : (List.range 17).findSome? fun (n : Nat) =>
        x.candidate? tie (x.magnitude.log10 - (n : Int)) with
    | none =>
      obtain ⟨hnormal, hvalue⟩ := x.toRat_exactDecimal
      exact ⟨hnormal, ofDecimal_eq hnormal hvalue⟩
    | some d =>
      obtain ⟨n, _, hcandidate⟩ := List.exists_of_findSome?_eq_some hfound
      obtain ⟨hnormal, hreads⟩ := normal_of_candidate? hcandidate
      exact ⟨hnormal, of_decide_eq_true hreads⟩

/-- The plain text of a number: a sign if it is negative, then its shortest decimal. -/
theorem toList_text_plain (x : Finite64) :
    (x.text .plain).toList =
      (if x.negative then ['-'] else []) ++ ((x.shortest .up).positionalText "").toList := by
  have hlayout : (x.shortest .up).text .plain = (x.shortest .up).positionalText "" := by
    rw [Decimal.text]
    simp [Layout.plain]
  rw [text, String.toList_append]
  show _ ++ ((x.shortest .up).text .plain).toList = _
  rw [hlayout]
  split <;> rfl

end Finite

/-- A text that begins with a digit is read as an unsigned number. -/
theorem readChars?_of_digit (f : Format) (e : Decimal.Digit) (cs : List Char) :
    readChars? f (e.toChar :: cs) = readUnsigned? f false (e.toChar :: cs) := by
  obtain ⟨hminus, hplus⟩ := Decimal.toChar_ne_sign e
  rw [readChars?]
  · intro rest h
    exact hminus (List.cons.inj h).1
  · intro rest h
    exact hplus (List.cons.inj h).1

/-- A decimal behind its sign is read and rounded with that sign. -/
theorem readChars?_signed (f : Format) {d : Decimal} {cs : List Char} (negative : Bool)
    (hfirst : ∃ (e : Decimal.Digit) (rest : List Char), cs = e.toChar :: rest)
    (hread : Decimal.read? cs = some d) :
    readChars? f ((if negative then ['-'] else []) ++ cs) = some (ofDecimal f negative d) := by
  cases negative with
  | true =>
    rw [if_pos rfl, List.singleton_append, readChars?, readUnsigned?, hread]
  | false =>
    obtain ⟨e, rest, rfl⟩ := hfirst
    rw [if_neg Bool.false_ne_true, List.nil_append, readChars?_of_digit, readUnsigned?, hread]

/-- A finite number of double precision is read back from its plain text. -/
theorem readChars?_text (x : Finite64) :
    readChars? .binary64 (x.text .plain).toList = some (.finite x) := by
  obtain ⟨hnormal, hreads⟩ := x.ofDecimal_shortest .up
  rw [x.toList_text_plain, readChars?_signed .binary64 x.negative
    (Decimal.positionalText_chars hnormal).1 (Decimal.read?_positionalText hnormal), hreads]

/-- The plain text of a number has only the characters of numbers, and at least one. -/
theorem text_chars (x : Finite64) :
    (x.text .plain).toList ≠ [] ∧
      ∀ c ∈ (x.text .plain).toList, Decimal.isNumberChar c = true := by
  obtain ⟨⟨e, rest, hfirst⟩, hchars⟩ :=
    Decimal.positionalText_chars (x.ofDecimal_shortest .up).1
  rw [x.toList_text_plain]
  constructor
  · rw [hfirst]
    simp
  · intro c hc
    rcases List.mem_append.1 hc with hsign | hdigit
    · split at hsign
      · obtain rfl := List.mem_singleton.1 hsign
        rfl
      · exact absurd hsign List.not_mem_nil
    · exact hchars c hdigit

/-! ## Texts of stored numbers -/

namespace Finite

/-- The units of a number count its absolute value in least positive numbers. -/
theorem natAbs_units {f : Format} (x : Finite f) :
    (x.units.natAbs : ℚ) = x.magnitude.toRat * 2 ^ (-f.minExponent) := by
  obtain ⟨_, hmin, _, _⟩ := x.canonical
  have habs : x.units.natAbs = x.mantissa * Nat.pow 2 (x.exponent - f.minExponent).toNat := by
    rw [units, withSign]
    split <;> omega
  rw [habs, toRat_magnitude, Nat.pow_eq]
  push_cast
  rw [mul_assoc, ← zpow_add₀ two_ne_zero, ← zpow_natCast, Int.toNat_of_nonneg (by omega)]
  rfl

/-- Two numbers have as many units exactly if their magnitudes are equal. -/
theorem natAbs_units_eq {f : Format} {x y : Finite f} :
    x.units.natAbs = y.units.natAbs ↔ x.magnitude.toRat = y.magnitude.toRat := by
  have hscale : (2 : ℚ) ^ (-f.minExponent) ≠ 0 := by positivity
  rw [← Nat.cast_inj (R := ℚ), natAbs_units, natAbs_units, mul_left_inj' hscale]

/-- Numbers with one sign and one absolute value are equal; a zero has no sign. -/
theorem units_eq {f : Format} {x y : Finite f} (hvalue : x.magnitude.toRat = y.magnitude.toRat)
    (hsign : x.negative = y.negative ∨ x.magnitude.toRat = 0) : x.units = y.units := by
  have habs : x.units.natAbs = y.units.natAbs := natAbs_units_eq.mpr hvalue
  rcases hsign with hsign | hzero
  · rw [units, units, withSign, withSign, hsign] at habs ⊢
    split at habs <;> split <;> omega
  · have hx : x.units.natAbs = 0 := by
      have hcast := natAbs_units x
      rw [hzero, zero_mul] at hcast
      exact_mod_cast hcast
    omega

/-- A number that is an integer has the absolute value of the integer, and its sign unless it is
zero. -/
theorem magnitude_of_toInt? {f : Format} {x : Finite f} {i : Int} (h : x.toInt? = some i) :
    x.magnitude.toRat = i.natAbs ∧ (x.negative = decide (i < 0) ∨ i = 0) := by
  simp only [toInt?] at h
  split at h
  · rename_i hmod
    have hi : x.withSign (x.magnitude.num / x.magnitude.den) = i := Option.some.inj h
    have habs : i.natAbs = x.magnitude.num / x.magnitude.den := by
      rw [← hi, withSign]
      generalize x.magnitude.num / x.magnitude.den = n
      split <;> omega
    constructor
    · have hdiv : x.magnitude.num = x.magnitude.num / x.magnitude.den * x.magnitude.den :=
        (Nat.div_mul_cancel (Nat.dvd_of_mod_eq_zero hmod)).symm
      rw [habs, Fraction.toRat, div_eq_iff x.magnitude.den_cast_pos.ne']
      exact_mod_cast hdiv
    · rw [withSign] at hi
      generalize x.magnitude.num / x.magnitude.den = n at hi
      cases hneg : x.negative with
      | true =>
        rw [hneg, if_pos rfl] at hi
        by_cases hzero : i = 0
        · exact Or.inr hzero
        · left
          symm
          simp only [decide_eq_true_eq]
          omega
      | false =>
        rw [hneg, if_neg Bool.false_ne_true] at hi
        left
        symm
        simp only [decide_eq_false_iff_not]
        omega
  · exact absurd h (by simp)

/-- A number with the absolute value of an integer and its sign is that integer. -/
theorem toInt?_of_magnitude {f : Format} {x : Finite f} {i : Int}
    (hvalue : x.magnitude.toRat = i.natAbs) (hsign : x.negative = decide (i < 0)) :
    x.toInt? = some i := by
  have hnum := Fraction.num_eq_of_toRat hvalue
  have hdiv : x.magnitude.num / x.magnitude.den = i.natAbs := by
    rw [hnum, Nat.mul_div_cancel _ x.magnitude.den_pos]
  have hmod : x.magnitude.num % x.magnitude.den = 0 := by
    rw [hnum, Nat.mul_mod_left]
  simp only [toInt?]
  rw [if_pos hmod, hdiv, withSign, hsign]
  refine congrArg some ?_
  by_cases hneg : i < 0
  · simp only [hneg, decide_true, if_true]
    omega
  · simp only [hneg, decide_false, Bool.false_eq_true, if_false]
    omega

end Finite

/-- The text of an integer is read as the number of its value. -/
theorem readChars?_intText {i : Int} (h : i.natAbs < 9007199254740992) :
    ∃ y : Finite64, readChars? .binary64 (Decimal.intText i).toList = some (.finite y) ∧
      y.magnitude.toRat = i.natAbs ∧ y.negative = decide (i < 0) := by
  obtain ⟨y, hsign, hvalue⟩ := exists_magnitude (decide (i < 0)) h
  have hread := Decimal.read?_chars (Decimal.numeral_ne_nil i.natAbs) []
  rw [show Decimal.pointed (Decimal.chars []) = [] from rfl, List.append_nil, List.append_nil] at hread
  have hfirst : ∃ (e : Decimal.Digit) (rest : List Char),
      Decimal.chars (Decimal.numeral i.natAbs) = e.toChar :: rest := by
    cases hnum : Decimal.numeral i.natAbs with
    | nil => exact absurd hnum (Decimal.numeral_ne_nil _)
    | cons e es => exact ⟨e, Decimal.chars es, rfl⟩
  have htext : (Decimal.intText i).toList =
      (if decide (i < 0) then ['-'] else []) ++ Decimal.chars (Decimal.numeral i.natAbs) := by
    rw [Decimal.toList_intText]
    simp
  refine ⟨y, ?_, hvalue, hsign⟩
  rw [htext, readChars?_signed .binary64 _ hfirst hread, ← hsign]
  refine congrArg some (ofDecimal_eq (Decimal.normal_normalize _ _) ?_)
  rw [Decimal.toRat_normalize, Decimal.value_numeral, hvalue, sub_self, zpow_zero, mul_one]

/-- A stored number is written as an integer of few digits or in plain notation. -/
theorem token_cases (x : Finite64) :
    token (.finite x) = x.text .plain ∨
      ∃ i, x.toInt? = some i ∧ i.natAbs < 1000000000000000 ∧
        token (.finite x) = Decimal.intText i := by
  have hbind : (Floating.finite x).toFinite?.bind Finite.toInt? = x.toInt? := rfl
  rw [token, hbind]
  cases hint : x.toInt? with
  | none => exact Or.inl rfl
  | some i =>
    by_cases hsmall : i.natAbs < 1000000000000000
    · exact Or.inr ⟨i, rfl, hsmall, if_pos hsmall⟩
    · exact Or.inl (if_neg hsmall)

/-- A stored number is read back up to numeric equality. -/
theorem readChars?_token (x : Finite64) :
    ∃ y : Finite64, readChars? .binary64 (token (.finite x)).toList = some (.finite y) ∧
      y.units = x.units := by
  rcases token_cases x with htoken | ⟨i, hint, hsmall, htoken⟩
  · rw [htoken]
    exact ⟨x, readChars?_text x, rfl⟩
  · rw [htoken]
    have hexact : i.natAbs < 9007199254740992 := by omega
    obtain ⟨y, hread, hvalue, hsign⟩ := readChars?_intText hexact
    obtain ⟨hvalue', hsign'⟩ := Finite.magnitude_of_toInt? hint
    refine ⟨y, hread, Finite.units_eq (hvalue.trans hvalue'.symm) ?_⟩
    rcases hsign' with hsame | hzero
    · exact Or.inl (hsign.trans hsame.symm)
    · right
      rw [hvalue, hzero]
      rfl

/-- The number read from the text of a stored number has that text again. -/
theorem token_of_readChars?_token {x : Finite64} {y : Binary64}
    (h : readChars? .binary64 (token (.finite x)).toList = some y) :
    token y = token (.finite x) := by
  rcases token_cases x with htoken | ⟨i, _, hsmall, htoken⟩
  · rw [htoken, readChars?_text] at h
    rw [← Option.some.inj h]
  · rw [htoken] at h ⊢
    have hexact : i.natAbs < 9007199254740992 := by omega
    obtain ⟨z, hread, hvalue, hsign⟩ := readChars?_intText hexact
    rw [hread] at h
    have hint : (Floating.finite z).toFinite?.bind Finite.toInt? = some i :=
      Finite.toInt?_of_magnitude hvalue hsign
    rw [← Option.some.inj h, token, hint]
    exact if_pos hsmall

/-- The text of a stored number has only the characters of numbers, and at least one. -/
theorem token_chars (x : Finite64) :
    (token (.finite x)).toList ≠ [] ∧
      ∀ c ∈ (token (.finite x)).toList, Decimal.isNumberChar c = true := by
  rcases token_cases x with htoken | ⟨i, _, _, htoken⟩
  · rw [htoken]
    exact text_chars x
  · rw [htoken]
    refine ⟨?_, fun c hc => Decimal.isNumberChar_of_mem_intText hc⟩
    rw [Decimal.toList_intText]
    intro hnil
    have hdigits := (List.append_eq_nil_iff.1 hnil).2
    exact Decimal.numeral_ne_nil _ (List.map_eq_nil_iff.1 hdigits)

end DocumentSchema.Floating
