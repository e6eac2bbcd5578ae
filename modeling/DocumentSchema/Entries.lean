/-!
# Entries: maps from text to values

A map is the list of its entries in ascending order of their keys, so two maps with the same
entries are the same list. `insert` keeps the order (`Ordered.insert`), and a look-up after an
insertion sees the new entry at its key (`get?_insert_self`) and the old map elsewhere
(`get?_insert_of_ne`).
-/

set_option autoImplicit false

namespace DocumentSchema

universe u v

/-- A map from text to values, as the list of its entries. -/
abbrev Entries (α : Type u) := List (String × α)

namespace Entries

variable {α : Type u} {β : Type v}

def Ordered (entries : Entries α) : Prop :=
  entries.Pairwise fun a b => a.1 < b.1

def get? : Entries α → String → Option α
  | [], _ => none
  | (k, a) :: rest, key => if k = key then some a else get? rest key

def contains (entries : Entries α) (key : String) : Bool :=
  (entries.get? key).isSome

/-- Sets the value at a key; an old value at that key gives way. -/
def insert : Entries α → String → α → Entries α
  | [], key, a => [(key, a)]
  | (k, b) :: rest, key, a =>
    if key < k then (key, a) :: (k, b) :: rest
    else if key = k then (key, a) :: rest
    else (k, b) :: insert rest key a

def erase : Entries α → String → Entries α
  | [], _ => []
  | (k, a) :: rest, key => if k = key then rest else (k, a) :: erase rest key

def keys (entries : Entries α) : List String :=
  entries.map Prod.fst

/-- Adds entries one after the other; of two at one key the later stays. -/
def insertAll (entries : Entries α) (more : List (String × α)) : Entries α :=
  more.foldl (fun acc e => acc.insert e.1 e.2) entries

/-- The map of a list of entries in any order; of two at one key the later stays. -/
def ofList (entries : List (String × α)) : Entries α :=
  insertAll [] entries

def mapValues (f : α → β) (entries : Entries α) : Entries β :=
  entries.map fun e => (e.1, f e.2)

/-- Nothing has no value under any key. -/
@[simp] theorem get?_nil (key : String) : get? ([] : Entries α) key = none := rfl

/-- An entry of a map after an insertion is the new one or an old one. -/
theorem mem_insert {entries : Entries α} {key : String} {a : α} {e : String × α}
    (h : e ∈ entries.insert key a) : e = (key, a) ∨ e ∈ entries := by
  induction entries with
  | nil => exact Or.inl (List.mem_singleton.1 h)
  | cons first rest ih =>
    obtain ⟨k, b⟩ := first
    simp only [insert] at h
    split at h
    · exact List.mem_cons.1 h
    · split at h
      · exact (List.mem_cons.1 h).imp_right (List.mem_cons_of_mem _)
      · cases List.mem_cons.1 h with
        | inl same => exact Or.inr (same ▸ List.mem_cons_self)
        | inr later => exact (ih later).imp_right (List.mem_cons_of_mem _)

/-- Every key of a map after an insertion is the new one or an old one. -/
theorem key_mem_insert {entries : Entries α} {key : String} {a : α} {e : String × α}
    (h : e ∈ entries.insert key a) : e.1 = key ∨ e ∈ entries :=
  (mem_insert h).imp_left (congrArg Prod.fst)

/-- Entries stay in the order of their keys when one is put in its place. -/
theorem Ordered.insert {entries : Entries α} (h : Ordered entries) (key : String) (a : α) :
    Ordered (entries.insert key a) := by
  induction entries with
  | nil => simp [Entries.insert, Ordered]
  | cons first rest ih =>
    obtain ⟨k, b⟩ := first
    obtain ⟨above, ordered⟩ := List.pairwise_cons.1 h
    simp only [Entries.insert]
    split
    · rename_i before
      refine List.pairwise_cons.2 ⟨?_, h⟩
      intro e he
      cases List.mem_cons.1 he with
      | inl first => exact first ▸ before
      | inr later => exact String.lt_trans before (above e later)
    · rename_i notBefore
      split
      · rename_i same
        subst same
        exact List.pairwise_cons.2 ⟨above, ordered⟩
      · rename_i differs
        refine List.pairwise_cons.2 ⟨?_, ih ordered⟩
        intro e he
        cases key_mem_insert he with
        | inl new =>
          refine Decidable.byContradiction fun notAfter => differs ?_
          exact String.le_antisymm (String.not_lt.1 (new ▸ notAfter)) (String.not_lt.1 notBefore)
        | inr old => exact above e old

/-- A value that was put under a key is found there. -/
theorem get?_insert_self (entries : Entries α) (key : String) (a : α) :
    (entries.insert key a).get? key = some a := by
  induction entries with
  | nil => simp [insert, get?]
  | cons e rest ih =>
    obtain ⟨k, b⟩ := e
    by_cases hlt : key < k
    · simp [insert, get?, hlt]
    · by_cases heq : key = k
      · simp only [insert, get?, if_neg hlt, if_pos heq, if_pos]
      · have hne : k ≠ key := fun h => heq h.symm
        simp [insert, get?, hlt, heq, hne, ih]

/-- Setting a value leaves the look-up at every other key alone. -/
theorem get?_insert_of_ne (entries : Entries α) {key other : String} (a : α)
    (h : key ≠ other) : (entries.insert key a).get? other = entries.get? other := by
  induction entries with
  | nil => simp [insert, get?, h]
  | cons e rest ih =>
    obtain ⟨k, b⟩ := e
    by_cases hlt : key < k
    · simp [insert, get?, hlt, h]
    · by_cases heq : key = k
      · subst heq
        simp only [insert, get?, if_neg hlt, if_pos, if_neg h]
      · simp [insert, get?, hlt, heq, ih]

end Entries

end DocumentSchema
