import DocumentSchema.Proofs.Coordinates
import DocumentSchema.Proofs.Value.Plain

/-!
# Values that equal themselves

Numbers compare as numbers, so a value equals itself only if no NaN is in it. Plain values do, and
so do arrays and objects whose parts do.
-/

set_option autoImplicit false

namespace DocumentSchema

/-- A number equals itself exactly if it is no NaN. -/
theorem Floating.equal_self_iff {f : Format} (x : Floating f) :
    x.equal x = true ↔ ∀ negative, x ≠ .nan negative := by
  cases x <;> simp [equal]

/-- A finite number equals itself. -/
theorem Floating.equal_self {f : Format} (x : Floating.Finite f) :
    (Floating.finite x).equal (.finite x) = true :=
  decide_eq_true rfl

namespace Value

/-- A finite number equals itself. -/
theorem same_number (x : Finite64) : (Value.number (.finite x)).same (.number (.finite x)) = true :=
  Floating.equal_self x

/-- A place that an index can hold has finite coordinates. -/
theorem same_point {p : Coordinates} (h : p.isValid = true) :
    (Value.point p).same (.point p) = true := by
  obtain ⟨x, y, rfl⟩ := Coordinates.exists_finite h
  show ((Floating.finite x).equal (.finite x) && (Floating.finite y).equal (.finite y)) = true
  rw [Floating.equal_self, Floating.equal_self]
  rfl

/-- Items each of which equals itself equal themselves. -/
theorem sameItems_self {items : List Value} (h : ∀ v ∈ items, v.same v = true) :
    sameItems items items = true := by
  induction items with
  | nil => rfl
  | cons v rest ih =>
    obtain ⟨hv, hrest⟩ := List.forall_mem_cons.1 h
    rw [sameItems, hv, ih hrest]
    rfl

/-- Equal values under one key in front of equal members are equal members. -/
theorem sameMembers_cons (name : String) {v w : Value} (h : v.same w = true) {xs ys : Document}
    (hrest : sameMembers xs ys = true) : sameMembers ((name, v) :: xs) ((name, w) :: ys) = true := by
  rw [sameMembers, h, hrest, decide_eq_true rfl]
  rfl

/-- Members each of which equals itself equal themselves. -/
theorem sameMembers_self {members : Document} (h : ∀ e ∈ members, e.2.same e.2 = true) :
    sameMembers members members = true := by
  induction members with
  | nil => rfl
  | cons first rest ih =>
    obtain ⟨name, v⟩ := first
    obtain ⟨hv, hrest⟩ := List.forall_mem_cons.1 h
    exact sameMembers_cons name hv (ih hrest)

mutual

/-- A plain value equals itself, for it has no NaN. -/
theorem same_of_plain (v : Value) (h : v.Plain) : v.same v = true := by
  cases v with
  | null => rfl
  | bool b => exact decide_eq_true rfl
  | number x =>
    obtain ⟨y, rfl⟩ := Floating.exists_of_isFinite h
    exact same_number y
  | string s => exact decide_eq_true rfl
  | array items => exact sameItems_of_plain items h
  | object members => exact sameMembers_of_plain members h
  | bigInt i => exact absurd h id
  | date t => exact absurd h id
  | point p => exact absurd h id
termination_by structural v

/-- Plain items equal themselves. -/
theorem sameItems_of_plain (items : List Value) (h : itemsPlain items) :
    sameItems items items = true := by
  cases items with
  | nil => rfl
  | cons v rest =>
    rw [sameItems, same_of_plain v h.1, sameItems_of_plain rest h.2]
    rfl
termination_by structural items

/-- Plain members equal themselves. -/
theorem sameMembers_of_plain (members : List (String × Value)) (h : membersPlain members) :
    sameMembers members members = true := by
  cases members with
  | nil => rfl
  | cons first rest =>
    obtain ⟨name, v⟩ := first
    exact sameMembers_cons name (same_of_plain v h.1) (sameMembers_of_plain rest h.2)
termination_by structural members

end

/-! ## Entries added to equal documents -/

/-- Equal documents stay equal when equal values are put under one key of both. -/
theorem sameMembers_insert {xs ys : Document} (h : sameMembers xs ys = true) (key : String)
    {v w : Value} (hv : v.same w = true) :
    sameMembers (Entries.insert xs key v) (Entries.insert ys key w) = true := by
  induction xs generalizing ys with
  | nil =>
    cases ys with
    | nil => exact sameMembers_cons key hv rfl
    | cons y ys => cases h
  | cons x xs ih =>
    cases ys with
    | nil => cases h
    | cons y ys =>
      obtain ⟨k, a⟩ := x
      obtain ⟨l, b⟩ := y
      have hsame := h
      rw [sameMembers, Bool.and_eq_true, Bool.and_eq_true, decide_eq_true_eq] at h
      obtain ⟨⟨rfl, ha⟩, hrest⟩ := h
      rw [Entries.insert, Entries.insert]
      split
      · exact sameMembers_cons key hv hsame
      · split
        · exact sameMembers_cons key hv hrest
        · exact sameMembers_cons k ha (ih hrest)

/-- Equal documents stay equal when the same entries are added to both. -/
theorem sameMembers_insertAll {xs ys : Document} (h : sameMembers xs ys = true) {more : Document}
    (hmore : ∀ e ∈ more, e.2.same e.2 = true) :
    sameMembers (Entries.insertAll xs more) (Entries.insertAll ys more) = true := by
  induction more generalizing xs ys with
  | nil => exact h
  | cons first rest ih =>
    obtain ⟨hfirst, hrest⟩ := List.forall_mem_cons.1 hmore
    exact ih (sameMembers_insert h first.1 hfirst) hrest

end Value

end DocumentSchema
