import DocumentSchema.Query.Tag
import DocumentSchema.Proofs.Codec.Admission
import DocumentSchema.Proofs.Floating.Values

/-!
# Numbers that are integers

Where integers are asked for, a number is taken for one if nothing is left of it without its whole
part and it lies between two limits. The limits are numbers too: the one below is exact, and the
greatest integer of 128 bits becomes the power of two above it (`Floating.ofInt_greatest`). Between
the limits nothing is cut off, so the number is taken for the integer that is its value and for no
other one (`Floating.toInt128?_eq_some_iff`). Documents and clauses then treat it as this integer
(`integers_of_numbers`).
-/

set_option autoImplicit false

namespace DocumentSchema

namespace Floating

/-! ## Integers of 128 bits -/

/-- The least integer of 128 bits is a number of double precision. -/
theorem ofInt_least :
    ofInt .binary64 Int128.least.val = .finite ⟨true, 4503599627370496, 75, by decide⟩ := by
  decide +kernel

/-- The greatest integer of 128 bits has more digits than a number keeps and is rounded up. -/
theorem ofInt_greatest :
    ofInt .binary64 Int128.greatest.val = .finite ⟨false, 4503599627370496, 75, by decide⟩ := by
  decide +kernel

/-- A number is compared with the least integer of 128 bits as its value is. -/
theorem least_le_iff {x : Finite64} :
    (ofInt .binary64 Int128.least.val).le (.finite x) = true ↔ -2 ^ 127 ≤ x.value := by
  rw [ofInt_least, le_iff]
  norm_num [Finite.value, Finite.toRat_magnitude]

/-- A number is below the greatest integer of 128 bits, rounded, exactly below `2 ^ 127`. -/
theorem lt_greatest_iff {x : Finite64} :
    (Floating.finite x).lt (ofInt .binary64 Int128.greatest.val) = true ↔ x.value < 2 ^ 127 := by
  rw [ofInt_greatest, lt_iff]
  norm_num [Finite.value, Finite.toRat_magnitude]

/-- An integer of 128 bits needs no clamping. -/
theorem clamp_val (i : Int128) : Int128.clamp i.val = i := by
  obtain ⟨val, hlower, hupper⟩ := i
  simp only [Int128.clamp, Int128.least, Int128.greatest, Int128.mk.injEq]
  omega

/-- A finite number is an integer exactly if it is whole and in the range of 128 bits. -/
theorem toInt128?_finite (x : Finite64) :
    toInt128? (.finite x) =
      if x.value = x.trunc ∧ -2 ^ 127 ≤ x.value ∧ x.value < 2 ^ 127 then some (Int128.clamp x.trunc)
      else none := by
  unfold toInt128?
  refine if_congr ?_ rfl rfl
  rw [Bool.and_eq_true, Bool.and_eq_true, Bool.and_eq_true, lt_greatest_iff, least_le_iff,
    fract_equal_zero_iff (by decide), and_assoc, and_assoc]
  exact and_iff_right rfl

/-- The number is finite, and the integer is its value. -/
def IsInteger {f : Format} (x : Floating f) (i : Int) : Prop :=
  ∃ y : Finite f, x = .finite y ∧ y.value = i

/-- A number is taken for the 128-bit integer that is its value, and for no other one. -/
theorem toInt128?_eq_some_iff {x : Binary64} {i : Int128} :
    x.toInt128? = some i ↔ x.IsInteger i.val := by
  cases x with
  | infinite negative => simp [toInt128?, IsInteger, isFinite, toFinite?]
  | nan negative => simp [toInt128?, IsInteger, isFinite, toFinite?]
  | finite y =>
    rw [toInt128?_finite]
    constructor
    · intro h
      split at h
      · rename_i htest
        obtain ⟨hwhole, hlow, hhigh⟩ := htest
        obtain rfl := Option.some.inj h
        rw [hwhole] at hlow hhigh
        have hlow : -2 ^ 127 ≤ y.trunc := by exact_mod_cast hlow
        have hhigh : y.trunc < 2 ^ 127 := by exact_mod_cast hhigh
        have hclamp := clamp_val ⟨y.trunc, by omega, by omega⟩
        exact ⟨y, rfl, by rw [hclamp, hwhole]⟩
      · cases h
    · rintro ⟨z, hz, hvalue⟩
      obtain rfl := Floating.finite.inj hz
      have htrunc := Finite.trunc_eq hvalue
      have hlow : -2 ^ 127 ≤ y.value := by
        rw [hvalue]
        exact_mod_cast i.lower
      have hhigh : y.value < 2 ^ 127 := by
        rw [hvalue]
        exact_mod_cast i.upper
      rw [if_pos ⟨by rw [hvalue, htrunc], hlow, hhigh⟩, htrunc, clamp_val]

/-- A number is refused exactly if it is no integer of 128 bits. -/
theorem toInt128?_eq_none_iff {x : Binary64} :
    x.toInt128? = none ↔ ∀ i : Int128, ¬x.IsInteger i.val := by
  rw [Option.eq_none_iff_forall_ne_some]
  exact forall_congr' fun i => not_congr toInt128?_eq_some_iff

end Floating

/-! ## Documents and clauses -/

open Admission Outcome Query

/-- The texts of a tag clause stand for integers. -/
inductive Query.TagContent.OfIntegers : TagContent → Prop
  | single : OfIntegers .bigInt
  | element : OfIntegers (.element .bigInt)

/-- Every tag clause of integers writes them in the same way. -/
theorem Query.TagContent.OfIntegers.token_eq {content : TagContent} (h : content.OfIntegers) :
    content.token = TagContent.bigIntToken := by
  cases h <;> rfl

/-- A number is taken for an integer exactly if it is finite and its value is this integer, in the
range of 128 bits. A field of integers then admits the number just as the integer itself, whatever
its literals, and a clause on integers looks for the text of the integer. Both refuse every other
number, and so they accept the same ones. -/
theorem integers_of_numbers (x : Binary64) :
    (∀ i : Int, x.toInt128?.map Int128.val = some i ↔
      x.IsInteger i ∧ -2 ^ 127 ≤ i ∧ i < 2 ^ 127) ∧
    ∀ (path : String) (literals : Option (List Int128)) (content : TagContent),
      content.OfIntegers →
      (∀ i : Int128, x.IsInteger i.val →
        bigInt path literals (.number x) = bigInt path literals (.bigInt i) ∧
          content.token (.number x) = .ok i.text) ∧
      ((∀ i : Int128, ¬x.IsInteger i.val) →
        bigInt path literals (.number x) =
            .error (.typeMismatch path (.scalar .bigInt) (Value.number x).name) ∧
          content.token (.number x) =
            .error (.unexpected .integerInRange (Value.number x).name)) ∧
      (Succeeds (bigInt path none (.number x)) ↔ Succeeds (content.token (.number x))) := by
  constructor
  · intro i
    rw [Option.map_eq_some_iff]
    constructor
    · rintro ⟨j, hj, rfl⟩
      have hlower := j.lower
      have hupper := j.upper
      exact ⟨Floating.toInt128?_eq_some_iff.1 hj, by omega, by omega⟩
    · rintro ⟨hvalue, hlower, hupper⟩
      exact ⟨⟨i, by omega, by omega⟩, Floating.toInt128?_eq_some_iff.2 hvalue, rfl⟩
  · intro path literals content hcontent
    rw [hcontent.token_eq]
    refine ⟨?_, ?_, ?_⟩
    · intro i hvalue
      have hfound := Floating.toInt128?_eq_some_iff.2 hvalue
      simp only [bigInt, TagContent.bigIntToken, hfound, and_self]
    · intro hno
      have hfound := Floating.toInt128?_eq_none_iff.2 hno
      simp only [bigInt, TagContent.bigIntToken, hfound, and_self, unexpected]
    · rw [bigInt, TagContent.bigIntToken]
      cases x.toInt128? with
      | none => exact iff_of_false (not_succeeds_error _) (not_succeeds_error _)
      | some i => exact iff_of_true (succeeds_ok i) (succeeds_ok i.text)

/-- Seven in double precision. -/
def seven : Finite64 := ⟨false, 7881299347898368, -50, by decide⟩

/-- Seven halves in double precision. -/
def sevenHalves : Finite64 := ⟨false, 7881299347898368, -51, by decide⟩

/-- Seven is taken for an integer by fields and by clauses, and half of it by neither. -/
theorem integers_of_numbers_seven :
    (∃ i, Floating.toInt128? (.finite seven) = some i ∧ i.val = 7) ∧
      bigInt "code" none (.number (.finite seven)) =
        bigInt "code" none (.bigInt ⟨7, by decide, by decide⟩) ∧
      TagContent.bigInt.token (.number (.finite seven)) = .ok "7" ∧
      (∀ i : Int128, ¬(Floating.finite sevenHalves).IsInteger i.val) ∧
      bigInt "code" none (.number (.finite sevenHalves)) =
        .error (.typeMismatch "code" (.scalar .bigInt) .number) ∧
      TagContent.bigInt.token (.number (.finite sevenHalves)) =
        .error (.unexpected .integerInRange .number) := by
  have hseven : (Floating.finite seven).IsInteger 7 := by
    refine ⟨seven, rfl, ?_⟩
    norm_num [seven, Floating.Finite.value, Floating.Finite.toRat_magnitude]
  have hhalves : ∀ i : Int128, ¬(Floating.finite sevenHalves).IsInteger i.val := by
    rintro i ⟨y, hy, hvalue⟩
    obtain rfl := Floating.finite.inj hy
    have htwice : (2 * i.val : ℚ) = 7 := by
      rw [← hvalue]
      norm_num [sevenHalves, Floating.Finite.value, Floating.Finite.toRat_magnitude]
    have htwice : 2 * i.val = 7 := by exact_mod_cast htwice
    omega
  obtain ⟨hfound, hboth⟩ := integers_of_numbers (.finite seven)
  obtain ⟨hsame, htoken⟩ := (hboth "code" none .bigInt .single).1 ⟨7, by decide, by decide⟩ hseven
  obtain ⟨hrefused, hno⟩ :=
    ((integers_of_numbers (.finite sevenHalves)).2 "code" none .bigInt .single).2.1 hhalves
  refine ⟨?_, hsame, htoken, hhalves, hrefused, hno⟩
  exact Option.map_eq_some_iff.1 ((hfound 7).2 ⟨hseven, by norm_num, by norm_num⟩)

/-- The limit below is an integer of 128 bits, and what the limit above becomes is none. -/
example :
    (Floating.ofInt .binary64 Int128.least.val).toInt128? = some Int128.least ∧
      (Floating.ofInt .binary64 Int128.greatest.val).toInt128? = none := by
  decide +kernel

end DocumentSchema
