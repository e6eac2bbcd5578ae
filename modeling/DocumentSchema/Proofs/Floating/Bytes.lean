import DocumentSchema.Floating.Bytes
import Mathlib.Algebra.Order.Ring.Nat
import Mathlib.Tactic.Ring

/-!
# Numbers read from bytes

The other direction of writing numbers as bytes. A pattern is taken apart into its sign, its biased
exponent and its fraction (`Floating.ofParts`); the exponent after the last marks the infinities and
what is no number. In a format whose sign, exponents and digits fill its bytes (`Format.Packed`)
every number is read back from its bytes (`Floating.ofBytes?_toBytes`), and so is a list of numbers
from their bytes one after the other (`Floating.readMany?_flatMap`).
-/

set_option autoImplicit false

namespace DocumentSchema

/-- As many bytes are written as were asked for. -/
theorem length_littleEndian (count n : Nat) : (littleEndian count n).length = count := by
  induction count generalizing n with
  | zero => rfl
  | succ count ih => rw [littleEndian, List.length_cons, ih]

/-- The number that bytes hold, the least first. -/
def ofLittleEndian : Bytes → Nat
  | [] => 0
  | b :: rest => b.toNat + 256 * ofLittleEndian rest

/-- A number that fits so many bytes is read back from them. -/
theorem ofLittleEndian_littleEndian {count n : Nat} (h : n < 256 ^ count) :
    ofLittleEndian (littleEndian count n) = n := by
  induction count generalizing n with
  | zero =>
    rw [pow_zero] at h
    rw [littleEndian, ofLittleEndian]
    omega
  | succ count ih =>
    have hrest : n / 256 < 256 ^ count := by
      rw [Nat.div_lt_iff_lt_mul (by decide), ← pow_succ]
      exact h
    have hbyte : (UInt8.ofNat (n % 256)).toNat = n % 256 := by
      rw [UInt8.toNat_ofNat']
      omega
    rw [littleEndian, ofLittleEndian, ih hrest, hbyte]
    omega

/-- A sign, the exponents and the digits after the leading one fill the bytes of the format. There
is one exponent for the numbers without a leading digit and one for those that are not finite. -/
structure Format.Packed (f : Format) : Prop where
  precision : 2 ≤ f.precision
  bytes : 0 < f.bytes
  full : (f.maxExponent - f.minExponent + 3).toNat * Nat.pow 2 (f.precision - 1) =
    Nat.pow 2 (8 * f.bytes - 1)

/-- Double precision fills its eight bytes. -/
theorem Format.packed_binary64 : Format.binary64.Packed :=
  ⟨by decide, by decide, by decide⟩

/-- Single precision fills its four bytes. -/
theorem Format.packed_binary32 : Format.binary32.Packed :=
  ⟨by decide, by decide, by decide⟩

namespace Floating

variable {f : Format}

/-- The number of a sign, a biased exponent and a fraction. -/
def ofParts (f : Format) (negative : Bool) (biased fraction : Nat) : Floating f :=
  let mantissa := if biased = 0 then fraction else Nat.pow 2 (f.precision - 1) + fraction
  let exponent := f.minExponent + ((biased - 1 : Nat) : Int)
  if h : f.Canonical mantissa exponent then .finite ⟨negative, mantissa, exponent, h⟩
  else if fraction = 0 then .infinite negative
  else .nan negative

/-- The number of a bit pattern. -/
def ofPattern (f : Format) (n : Nat) : Floating f :=
  let sign := Nat.pow 2 (8 * f.bytes - 1)
  let leading := Nat.pow 2 (f.precision - 1)
  ofParts f (sign ≤ n) (n % sign / leading) (n % sign % leading)

/-- The number of as many bytes as the format has. -/
def ofBytes? (f : Format) (bytes : Bytes) : Option (Floating f) :=
  if bytes.length = f.bytes then some (ofPattern f (ofLittleEndian bytes)) else none

/-- As many numbers as asked for, from bytes that hold nothing else. -/
def readMany? (f : Format) : (count : Nat) → Bytes → Option (List (Floating f))
  | 0, [] => some []
  | 0, _ :: _ => none
  | count + 1, bytes => do
    let x ← ofBytes? f (bytes.take f.bytes)
    let xs ← readMany? f count (bytes.drop f.bytes)
    return x :: xs

/-! ## Patterns -/

/-- A finite number is put together from its sign, biased exponent and fraction. -/
theorem ofParts_finite {x : Finite f} {biased fraction : Nat}
    (hmantissa : (if biased = 0 then fraction else Nat.pow 2 (f.precision - 1) + fraction) =
      x.mantissa)
    (hexponent : f.minExponent + ((biased - 1 : Nat) : Int) = x.exponent) :
    ofParts f x.negative biased fraction = .finite x := by
  obtain ⟨negative, mantissa, exponent, hcanonical⟩ := x
  dsimp only at hmantissa hexponent
  subst hmantissa hexponent
  exact dif_pos hcanonical

/-- A pattern is taken apart into what it was put together from. -/
theorem ofPattern_parts {biased fraction : Nat} (negative : Bool)
    (hfraction : fraction < Nat.pow 2 (f.precision - 1))
    (hbits : biased * Nat.pow 2 (f.precision - 1) + fraction < Nat.pow 2 (8 * f.bytes - 1)) :
    ofPattern f (signPattern f negative + (biased * Nat.pow 2 (f.precision - 1) + fraction)) =
      ofParts f negative biased fraction := by
  have hleading : 0 < Nat.pow 2 (f.precision - 1) := Nat.two_pow_pos _
  have hbiased : (biased * Nat.pow 2 (f.precision - 1) + fraction) / Nat.pow 2 (f.precision - 1) =
      biased := by
    rw [Nat.mul_comm, Nat.mul_add_div hleading, Nat.div_eq_of_lt hfraction, Nat.add_zero]
  have hrest : (biased * Nat.pow 2 (f.precision - 1) + fraction) % Nat.pow 2 (f.precision - 1) =
      fraction := by
    rw [Nat.mul_comm, Nat.mul_add_mod, Nat.mod_eq_of_lt hfraction]
  unfold ofPattern signPattern
  cases negative with
  | true =>
    simp only [if_true, Nat.add_mod_left, Nat.mod_eq_of_lt hbits, hbiased, hrest, Nat.le_add_right,
      decide_true]
  | false =>
    simp only [Bool.false_eq_true, if_false, Nat.zero_add, Nat.mod_eq_of_lt hbits, hbiased, hrest,
      decide_eq_false (Nat.not_le.2 hbits)]

/-- The exponent after the last is of no finite number. -/
theorem ofParts_last (negative : Bool) (fraction : Nat) :
    ofParts f negative (f.maxExponent - f.minExponent + 2).toNat fraction =
      if fraction = 0 then .infinite negative else .nan negative := by
  have hle := f.minExponent_le
  refine dif_neg ?_
  rintro ⟨_, _, hmax, _⟩
  omega

/-- The parts of every number fit below its sign. -/
theorem exists_parts (hf : f.Packed) (x : Floating f) :
    ∃ (negative : Bool) (biased fraction : Nat),
      biased ≤ (f.maxExponent - f.minExponent + 2).toNat ∧
      fraction < Nat.pow 2 (f.precision - 1) ∧
      x.pattern =
        signPattern f negative + (biased * Nat.pow 2 (f.precision - 1) + fraction) ∧
      ofParts f negative biased fraction = x := by
  cases x with
  | finite x =>
    obtain ⟨hdigits, hmin, hmax, hleading⟩ := x.canonical
    have hdouble : Nat.pow 2 f.precision = Nat.pow 2 (f.precision - 1) * 2 := by
      have hsucc := pow_succ 2 (f.precision - 1)
      rwa [Nat.sub_add_cancel (by have := hf.precision; omega)] at hsucc
    rcases lt_or_ge x.mantissa (Nat.pow 2 (f.precision - 1)) with hsmall | hlarge
    · -- without a leading digit the exponent is the least one
      have hexponent := hleading.resolve_left (not_le.2 hsmall)
      refine ⟨x.negative, 0, x.mantissa, Nat.zero_le _, hsmall, ?_, ?_⟩
      · rw [pattern, Finite.pattern, hexponent, sub_self, Int.toNat_zero]
      · exact ofParts_finite (if_pos rfl) (by rw [hexponent]; exact add_zero _)
    · refine ⟨x.negative, (x.exponent - f.minExponent).toNat + 1,
        x.mantissa - Nat.pow 2 (f.precision - 1), by omega, by omega, ?_, ?_⟩
      · rw [pattern, Finite.pattern, Nat.succ_mul]
        omega
      · refine ofParts_finite ?_ ?_
        · rw [if_neg (Nat.succ_ne_zero _)]
          omega
        · omega
  | infinite s =>
    refine ⟨s, _, 0, le_rfl, Nat.two_pow_pos _, rfl, ?_⟩
    rw [ofParts_last, if_pos rfl]
  | nan s =>
    have hprecision := hf.precision
    refine ⟨s, _, Nat.pow 2 (f.precision - 2), le_rfl, ?_, Nat.add_assoc _ _ _, ?_⟩
    · exact Nat.pow_lt_pow_right (by decide) (by omega)
    · have hfraction : Nat.pow 2 (f.precision - 2) ≠ 0 := (Nat.two_pow_pos _).ne'
      rw [ofParts_last, if_neg hfraction]

/-- What is below the sign of a number leaves the sign its bit. -/
theorem parts_lt (hf : f.Packed) {biased fraction : Nat}
    (hbiased : biased ≤ (f.maxExponent - f.minExponent + 2).toNat)
    (hfraction : fraction < Nat.pow 2 (f.precision - 1)) :
    biased * Nat.pow 2 (f.precision - 1) + fraction < Nat.pow 2 (8 * f.bytes - 1) := by
  have hle := f.minExponent_le
  rw [← hf.full]
  calc biased * Nat.pow 2 (f.precision - 1) + fraction
      < biased * Nat.pow 2 (f.precision - 1) + Nat.pow 2 (f.precision - 1) :=
        Nat.add_lt_add_left hfraction _
    _ = (biased + 1) * Nat.pow 2 (f.precision - 1) := (Nat.succ_mul _ _).symm
    _ ≤ (f.maxExponent - f.minExponent + 3).toNat * Nat.pow 2 (f.precision - 1) :=
        Nat.mul_le_mul_right _ (by omega)

/-- The pattern of a number fits the bytes of the format. -/
theorem pattern_lt (hf : f.Packed) (x : Floating f) : x.pattern < 256 ^ f.bytes := by
  obtain ⟨negative, biased, fraction, hbiased, hfraction, hpattern, _⟩ := exists_parts hf x
  have hbits := parts_lt hf hbiased hfraction
  have hsign : signPattern f negative ≤ Nat.pow 2 (8 * f.bytes - 1) := by
    unfold signPattern
    split
    · exact le_rfl
    · exact Nat.zero_le _
  have hall : 256 ^ f.bytes = Nat.pow 2 (8 * f.bytes - 1) * 2 := by
    have hbytes := hf.bytes
    calc 256 ^ f.bytes = 2 ^ (8 * f.bytes) := (pow_mul 2 8 f.bytes).symm
      _ = 2 ^ (8 * f.bytes - 1 + 1) := by rw [Nat.sub_add_cancel (by omega)]
      _ = Nat.pow 2 (8 * f.bytes - 1) * 2 := pow_succ _ _
  rw [hpattern, hall]
  omega

/-- A number is read back from its pattern. -/
theorem ofPattern_pattern (hf : f.Packed) (x : Floating f) : ofPattern f x.pattern = x := by
  obtain ⟨negative, biased, fraction, hbiased, hfraction, hpattern, hparts⟩ := exists_parts hf x
  rw [hpattern, ofPattern_parts negative hfraction (parts_lt hf hbiased hfraction), hparts]

/-! ## Bytes -/

/-- Every number has as many bytes as the format. -/
theorem length_toBytes (x : Floating f) : x.toBytes.length = f.bytes := length_littleEndian _ _

/-- A number is read back from its bytes. -/
theorem ofBytes?_toBytes (hf : f.Packed) (x : Floating f) : ofBytes? f x.toBytes = some x := by
  rw [ofBytes?, if_pos x.length_toBytes, toBytes, ofLittleEndian_littleEndian (pattern_lt hf x),
    ofPattern_pattern hf]

/-- Numbers are read back, in their order, from their bytes one after the other. -/
theorem readMany?_flatMap (hf : f.Packed) (xs : List (Floating f)) :
    readMany? f xs.length (xs.flatMap toBytes) = some xs := by
  induction xs with
  | nil => rfl
  | cons x xs ih =>
    have hlength := x.length_toBytes
    rw [List.length_cons, List.flatMap_cons, readMany?, List.take_left' hlength,
      List.drop_left' hlength, ofBytes?_toBytes hf, ih]
    rfl

/-- The bytes of a sequence of numbers are those of the format for each. -/
theorem length_flatMap_toBytes (xs : List (Floating f)) :
    (xs.flatMap toBytes).length = xs.length * f.bytes := by
  induction xs with
  | nil => rw [List.flatMap_nil, List.length_nil, List.length_nil, Nat.zero_mul]
  | cons x xs ih =>
    rw [List.flatMap_cons, List.length_append, length_toBytes, ih, List.length_cons, Nat.succ_mul,
      Nat.add_comm]

end Floating

end DocumentSchema
