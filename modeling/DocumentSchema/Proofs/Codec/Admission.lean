import DocumentSchema.Codec.Admission
import DocumentSchema.Proofs.Outcome

/-!
# Admitted values

Values of the type that a field decodes to are admitted as they are: a number if it is finite, an
integer if it is a literal, a place if an index can hold it, a vector if all its components are
finite.
-/

set_option autoImplicit false

namespace DocumentSchema

/-- The values other than null that reading a field of a leaf kind gives: of the type of the kind,
and dates to the millisecond outside leap seconds. -/
def Kind.DecodesTo : Kind → Value → Prop
  | .string _ _, v => ∃ s, v = .string s
  | .text _ _, v => ∃ s, v = .string s
  | .number _, v => ∃ x, v = .number x
  | .bigInt _, v => ∃ i, v = .bigInt i
  | .boolean, v => ∃ b, v = .bool b
  | .date, v =>
    ∃ t : Instant, v = .date t ∧ t.nanos < Instant.nanosPerSecond ∧
      t.nanos % Instant.nanosPerMilli = 0
  | .point, v => ∃ p, v = .point p
  | .vector _, v => ∃ vs, v = .array vs ∧ ∀ w ∈ vs, ∃ x, w = .number x
  | .array _ _, _ => False
  | .tuple _, _ => False
  | .object _, _ => False

namespace Admission

open Outcome

variable {path : String}

/-- Exactly the finite numbers among the literals are admitted. -/
theorem number_iff {literals : Option (List Binary64)} {v : Value} {y : Finite64} :
    number path literals v = .ok y ↔
      v = .number (.finite y) ∧ admits Floating.equal literals (.finite y) = true := by
  constructor
  · intro h
    cases v with
    | number x =>
      cases x with
      | finite z =>
        rw [number] at h
        dsimp only [Floating.toFinite?] at h
        split at h
        · rename_i hadmits
          obtain rfl := Except.ok.inj h
          exact ⟨rfl, hadmits⟩
        · cases h
      | infinite negative => cases h
      | nan negative => cases h
    | _ => cases h
  · rintro ⟨rfl, hadmits⟩
    rw [number]
    dsimp only [Floating.toFinite?]
    rw [if_pos hadmits]

/-- A number that is admitted as another is that one. -/
theorem number_eq_ok {literals : Option (List Binary64)} {x : Binary64} {y : Finite64}
    (h : number path literals (.number x) = .ok y) : x = .finite y :=
  Value.number.inj (number_iff.1 h).1

/-- Literals do not tell numbers with one value apart. -/
theorem admits_of_units_eq {literals : Option (List Binary64)} {x y : Finite64}
    (hunits : y.units = x.units) (h : admits Floating.equal literals (.finite x) = true) :
    admits Floating.equal literals (.finite y) = true := by
  have hequal : ∀ z : Binary64, z.equal (.finite y) = z.equal (.finite x) := by
    intro z
    cases z with
    | finite z => simp only [Floating.equal, hunits]
    | infinite negative => rfl
    | nan negative => rfl
  cases literals with
  | none => rfl
  | some allowed => simpa only [admits, hequal] using h

/-- An integer that is admitted as another is that one. -/
theorem bigInt_eq_ok {literals : Option (List Int128)} {i j : Int128}
    (h : bigInt path literals (.bigInt i) = .ok j) : i = j := by
  rw [bigInt] at h
  split at h
  · exact Except.ok.inj h
  · cases h

/-- What is admitted as an integer is among the literals. -/
theorem bigInt_self {literals : Option (List Int128)} {v : Value} {i : Int128}
    (h : bigInt path literals v = .ok i) : bigInt path literals (.bigInt i) = .ok i := by
  cases v with
  | bigInt j =>
    obtain rfl := bigInt_eq_ok h
    exact h
  | number x =>
    rw [bigInt] at h
    split at h
    · cases h
    · split at h
      · rename_i hadmits
        obtain rfl := Except.ok.inj h
        exact if_pos hadmits
      · cases h
  | _ => cases h

/-- A value is admitted as the instant that it denotes. -/
theorem date_iff {v : Value} {t : Instant} : date path v = .ok t ↔ v.toInstant? = some t := by
  rw [date]
  cases v.toInstant? with
  | none => simp
  | some u => simp

/-- A point that is admitted as another is that one, and valid. -/
theorem point_eq_ok {p q : Coordinates} (h : point path (.point p) = .ok q) :
    p = q ∧ p.isValid = true := by
  rw [point] at h
  split at h
  · rename_i hvalid
    exact ⟨Except.ok.inj h, hvalid⟩
  · cases h

/-- Only a point is admitted as one. -/
theorem exists_of_point {v : Value} {p : Coordinates} (h : point path v = .ok p) :
    ∃ q, v = .point q := by
  cases v with
  | point q => exact ⟨q, rfl⟩
  | _ => cases h

/-- Items that are admitted are the items of the array. -/
theorem items_eq_ok {expected : KindName} {vs ws : List Value}
    (h : items path expected (.array vs) = .ok ws) : vs = ws := Except.ok.inj h

/-- Values are admitted as numbers exactly if they are these finite numbers. -/
theorem numbers_iff {vs : List Value} {xs : List Finite64} :
    vs.mapM (number path none) = .ok xs ↔ vs = xs.map fun x => .number (.finite x) := by
  induction vs generalizing xs with
  | nil => cases xs <;> simp [pure_eq_ok]
  | cons v vs ih =>
    rw [List.mapM_cons, bind_eq_ok]
    constructor
    · rintro ⟨y, hy, h⟩
      obtain ⟨ys, hys, h⟩ := bind_eq_ok.1 h
      obtain rfl := pure_eq_ok.1 h
      rw [ih.1 hys, (number_iff.1 hy).1]
      rfl
    · intro h
      cases xs with
      | nil => cases h
      | cons x xs =>
        obtain ⟨rfl, hvs⟩ := List.cons.inj h
        refine ⟨x, number_iff.2 ⟨rfl, rfl⟩, ?_⟩
        rw [ih.2 hvs]
        rfl

/-- Exactly the arrays of as many finite numbers as the vector has components are admitted. -/
theorem vector_iff {dimension : UInt32} {v : Value} {xs : List Finite64} :
    vector path dimension v = .ok xs ↔
      v = .array (xs.map fun x => .number (.finite x)) ∧ xs.length = dimension.toNat := by
  constructor
  · intro h
    obtain ⟨vs, hvs, h⟩ := bind_eq_ok.1 h
    split at h
    · cases h
    · rename_i hlength
      have hnumbers := numbers_iff.1 h
      rw [hnumbers, List.length_map] at hlength
      cases v with
      | array ws =>
        obtain rfl := items_eq_ok hvs
        exact ⟨congrArg Value.array hnumbers, Decidable.not_not.1 hlength⟩
      | _ => cases hvs
  · rintro ⟨rfl, hlength⟩
    rw [vector, items, ok_bind, List.length_map, if_neg fun h => h hlength]
    exact numbers_iff.2 rfl

/-- Components that are admitted are the numbers of the array. -/
theorem vector_eq_ok {dimension : UInt32} {vs : List Value} {xs : List Finite64}
    (h : vector path dimension (.array vs) = .ok xs) : vs = xs.map fun x => .number (.finite x) :=
  Value.array.inj (vector_iff.1 h).1

end Admission

end DocumentSchema
