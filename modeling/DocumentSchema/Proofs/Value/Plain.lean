import DocumentSchema.Proofs.Entries
import DocumentSchema.Proofs.Floating.Rounding
import DocumentSchema.Value.Json

/-!
# Values that trees hold as they are

A plain value is built from nulls, truth values, finite numbers, texts, arrays and objects. It comes
back from its tree (`ofJson_toJson`), and whatever a tree denotes is plain (`plain_ofJson`).
-/

set_option autoImplicit false

namespace DocumentSchema.Value

mutual

/-- A value of which JSON keeps everything: no date, integer or point, and no number that is not
finite. -/
def Plain : Value → Prop
  | .null => True
  | .bool _ => True
  | .number x => x.isFinite = true
  | .string _ => True
  | .array items => itemsPlain items
  | .object members => membersPlain members
  | .bigInt _ => False
  | .date _ => False
  | .point _ => False
termination_by structural v => v

/-- The same for every item of an array. -/
def itemsPlain : List Value → Prop
  | [] => True
  | v :: rest => v.Plain ∧ itemsPlain rest
termination_by structural items => items

/-- The same for the value of every member. -/
def membersPlain : List (String × Value) → Prop
  | [] => True
  | (_, v) :: rest => v.Plain ∧ membersPlain rest
termination_by structural members => members

end

mutual

/-- A plain value is read back from its JSON. -/
theorem ofJson_toJson (v : Value) (h : v.Plain) : ofJson v.toJson = v := by
  cases v with
  | null => rfl
  | bool b => rfl
  | number x =>
    cases x with
    | finite y => rfl
    | infinite negative => exact absurd h (by simp [Plain, Floating.isFinite, Floating.toFinite?])
    | nan negative => exact absurd h (by simp [Plain, Floating.isFinite, Floating.toFinite?])
  | string s => rfl
  | array items => exact congrArg Value.array (itemsOfJson_itemsToJson items h)
  | object members => exact congrArg Value.object (membersOfJson_membersToJson members h)
  | bigInt i => exact absurd h id
  | date t => exact absurd h id
  | point p => exact absurd h id
termination_by structural v

/-- Plain items are read back from their JSON. -/
theorem itemsOfJson_itemsToJson (items : List Value) (h : itemsPlain items) :
    itemsOfJson (itemsToJson items) = items := by
  cases items with
  | nil => rfl
  | cons v rest =>
    obtain ⟨hv, hrest⟩ := h
    rw [itemsToJson, itemsOfJson, ofJson_toJson v hv, itemsOfJson_itemsToJson rest hrest]
termination_by structural items

/-- Plain members are read back from their JSON. -/
theorem membersOfJson_membersToJson (members : List (String × Value)) (h : membersPlain members) :
    membersOfJson (membersToJson members) = members := by
  cases members with
  | nil => rfl
  | cons first rest =>
    obtain ⟨name, v⟩ := first
    obtain ⟨hv, hrest⟩ := h
    rw [membersToJson, membersOfJson, ofJson_toJson v hv, membersOfJson_membersToJson rest hrest]
termination_by structural members

end

/-- A number of a tree is finite in double precision. -/
theorem isFinite_toBinary (n : Json.Number) : n.toBinary.isFinite = true := by
  cases n with
  | integer i lower upper =>
    refine Floating.isFinite_ofInt ?_
    omega
  | float x => rfl

/-- A number in JSON is finite. -/
theorem exists_of_toBinary? {json : Json} {x : Binary64} (h : json.toBinary? = some x) :
    ∃ y : Finite64, x = .finite y := by
  cases json with
  | number n =>
    obtain rfl := Option.some.inj h
    exact Floating.exists_of_isFinite (isFinite_toBinary n)
  | null => exact absurd h (by simp [Json.toBinary?])
  | bool b => exact absurd h (by simp [Json.toBinary?])
  | string s => exact absurd h (by simp [Json.toBinary?])
  | array items => exact absurd h (by simp [Json.toBinary?])
  | object members => exact absurd h (by simp [Json.toBinary?])

mutual

/-- A value that was read from JSON is plain. -/
theorem plain_ofJson (json : Json) : (ofJson json).Plain := by
  cases json with
  | null => exact trivial
  | bool b => exact trivial
  | number n => exact isFinite_toBinary n
  | string s => exact trivial
  | array items => exact itemsPlain_itemsOfJson items
  | object members => exact membersPlain_membersOfJson members
termination_by structural json

/-- Items that were read from JSON are plain. -/
theorem itemsPlain_itemsOfJson (items : List Json) : itemsPlain (itemsOfJson items) := by
  cases items with
  | nil => exact trivial
  | cons json rest => exact ⟨plain_ofJson json, itemsPlain_itemsOfJson rest⟩
termination_by structural items

/-- Members that were read from JSON are plain. -/
theorem membersPlain_membersOfJson (members : List (String × Json)) :
    membersPlain (membersOfJson members) := by
  cases members with
  | nil => exact trivial
  | cons first rest =>
    obtain ⟨name, json⟩ := first
    exact ⟨plain_ofJson json, membersPlain_membersOfJson rest⟩
termination_by structural members

end

/-! ## The recursions over lists in terms of maps -/

/-- Items are written one by one. -/
theorem itemsToJson_eq (items : List Value) : itemsToJson items = items.map toJson := by
  induction items with
  | nil => rfl
  | cons v rest ih => rw [itemsToJson, ih, List.map_cons]

/-- Members are written one by one, each under its own key. -/
theorem membersToJson_eq (members : Entries Value) :
    membersToJson members = members.mapValues toJson := by
  induction members with
  | nil => rfl
  | cons first rest ih =>
    obtain ⟨name, v⟩ := first
    rw [membersToJson, ih]
    rfl

/-- Members are read one by one, each under its own key. -/
theorem membersOfJson_eq (members : Entries Json) :
    membersOfJson members = members.mapValues ofJson := by
  induction members with
  | nil => rfl
  | cons first rest ih =>
    obtain ⟨name, json⟩ := first
    rw [membersOfJson, ih]
    rfl

/-- Members are plain exactly if the value of each is. -/
theorem membersPlain_iff {members : Entries Value} :
    membersPlain members ↔ ∀ e ∈ members, e.2.Plain := by
  induction members with
  | nil => simp [membersPlain]
  | cons first rest ih =>
    obtain ⟨name, v⟩ := first
    rw [membersPlain, ih, List.forall_mem_cons]

end DocumentSchema.Value
