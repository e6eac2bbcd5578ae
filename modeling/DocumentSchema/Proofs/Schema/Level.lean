import DocumentSchema.Proofs.Entries
import DocumentSchema.Schema.Basic

/-!
# Levels of documents

At each level of a document some entries have fields and the others do not. Readers and writers
treat the two apart and put the results together again. `Level` says what makes that sound: the
entries of either side are in key order, and only the described ones have the names of fields. The
two sides of a level can then be told apart in the whole (`Level.agree`, `Level.undescribed_eq`).
-/

set_option autoImplicit false

namespace DocumentSchema

variable {α β : Type}

/-- The entries that some of the fields describes, in the order of the fields. -/
def described (fields : Entries Field) (entries : Entries α) : Entries α :=
  fields.filterMap fun e => (entries.get? e.1).map fun a => (e.1, a)

/-- What no field describes is what is there under other names. -/
theorem mem_undescribed {fields : Entries Field} {entries : Entries α} {e : String × α} :
    e ∈ undescribed fields entries ↔ e ∈ entries ∧ fields.contains e.1 = false := by
  simp [undescribed, List.mem_filter]

/-- Under the name of a field stands nothing that no field describes. -/
theorem get?_undescribed (fields : Entries Field) (entries : Entries α) (key : String) :
    (undescribed fields entries).get? key =
      if fields.contains key then none else entries.get? key := by
  rw [undescribed, Entries.get?_filter fun key => !fields.contains key]
  cases fields.contains key <;> rfl

/-- What no field describes stays in the order of its keys. -/
theorem ordered_undescribed {entries : Entries α} (h : entries.Ordered) (fields : Entries Field) :
    (undescribed fields entries).Ordered :=
  h.filter _

/-- Which entries no field describes does not depend on their values. -/
theorem mapValues_undescribed (f : α → β) (fields : Entries Field) (entries : Entries α) :
    (undescribed fields entries).mapValues f = undescribed fields (entries.mapValues f) := by
  rw [undescribed, undescribed, Entries.mapValues, Entries.mapValues, List.filter_map]
  rfl

/-- Entries for fields only have nothing that no field describes. -/
theorem undescribed_eq_nil {fields : Entries Field} {entries : Entries α}
    (h : ∀ e ∈ entries, fields.contains e.1 = true) : undescribed fields entries = [] := by
  refine List.filter_eq_nil_iff.2 ?_
  intro e he
  simp [h e he]

/-- Entries with the keys of some of the fields are all described. -/
theorem contains_of_sublist {fields : Entries Field} {entries : Entries α}
    (h : entries.keys.Sublist fields.keys) : ∀ e ∈ entries, fields.contains e.1 = true :=
  fun _ he => Entries.contains_of_mem_keys (h.subset (List.mem_map_of_mem he))

/-- Two maps have the same entries for all fields. -/
def Agree (fields : Entries Field) (entries others : Entries α) : Prop :=
  ∀ name, fields.contains name = true → entries.get? name = others.get? name

namespace Agree

variable {name : String} {field : Field} {rest : Entries Field} {entries others : Entries α}

/-- A later field is present and has another name than the first. -/
theorem contains_tail (h : Entries.Ordered ((name, field) :: rest)) {key : String}
    (hkey : rest.contains key = true) :
    Entries.contains ((name, field) :: rest) key = true ∧ name ≠ key := by
  have hne : name ≠ key := by
    rintro rfl
    rw [Entries.contains, h.get?_tail] at hkey
    exact absurd hkey (by simp)
  refine ⟨?_, hne⟩
  rw [Entries.contains, Entries.get?, if_neg hne]
  exact hkey

/-- The first field is present. -/
theorem contains_head : Entries.contains ((name, field) :: rest) name = true := by
  rw [Entries.contains, Entries.get?, if_pos rfl]
  rfl

/-- Entries for the later fields only leave the first field without one. -/
theorem absent (hagree : Agree ((name, field) :: rest) entries others)
    (hordered : Entries.Ordered ((name, field) :: rest)) (hkeys : others.keys.Sublist rest.keys) :
    entries.get? name = none ∧ Agree rest entries others := by
  refine ⟨?_, fun key hkey => hagree key (contains_tail hordered hkey).1⟩
  rw [hagree name contains_head]
  refine Entries.get?_eq_none_iff.2 fun e he heq => ?_
  obtain ⟨f, hf, hname⟩ := List.mem_map.1 (hkeys.subset (List.mem_map_of_mem he))
  exact Entries.get?_eq_none_iff.1 hordered.get?_tail f hf (hname.trans heq)

/-- An entry for the first field in front of entries for the later ones is the one of that field. -/
theorem present {a : α} (hagree : Agree ((name, field) :: rest) entries ((name, a) :: others))
    (hordered : Entries.Ordered ((name, field) :: rest)) :
    entries.get? name = some a ∧ Agree rest entries others := by
  refine ⟨?_, fun key hkey => ?_⟩
  · rw [hagree name contains_head, Entries.get?, if_pos rfl]
  · obtain ⟨hcontains, hne⟩ := contains_tail hordered hkey
    rw [hagree key hcontains, Entries.get?, if_neg hne]

end Agree

/-- The two sides of a level: entries for fields and entries for no field, each in key order. -/
structure Level (fields : Entries Field) (inside outside : Entries α) : Prop where
  fields_ordered : fields.Ordered
  keys : inside.keys.Sublist fields.keys
  outside_ordered : outside.Ordered
  apart : ∀ e ∈ outside, fields.contains e.1 = false

namespace Level

variable {fields : Entries Field} {inside outside : Entries α}

/-- The entries for fields are in key order. -/
theorem inside_ordered (h : Level fields inside outside) : inside.Ordered :=
  h.fields_ordered.of_keys h.keys

/-- A level put together from its sides is in key order. -/
theorem ordered (h : Level fields inside outside) : (inside.insertAll outside).Ordered :=
  h.inside_ordered.insertAll outside

/-- The entries inside are for fields. -/
theorem contains_of_mem (h : Level fields inside outside) {e : String × α} (he : e ∈ inside) :
    fields.contains e.1 = true :=
  Entries.contains_of_mem_keys (h.keys.subset (List.mem_map_of_mem he))

/-- A level has for every field the entry inside. -/
theorem agree (h : Level fields inside outside) :
    Agree fields (inside.insertAll outside) inside := by
  intro name hname
  rw [Entries.get?_insertAll _ h.outside_ordered.distinct]
  have hnone : outside.get? name = none := Entries.get?_eq_none_iff.2 fun e he heq => by
    have hfalse := h.apart e he
    rw [heq, hname] at hfalse
    exact absurd hfalse (by simp)
  rw [hnone, Option.none_or]

/-- The entries without a field are those outside. -/
theorem undescribed_eq (h : Level fields inside outside) :
    undescribed fields (inside.insertAll outside) = outside := by
  refine (ordered_undescribed h.ordered fields).ext h.outside_ordered fun key => ?_
  rw [get?_undescribed, Entries.get?_insertAll _ h.outside_ordered.distinct]
  by_cases hkey : fields.contains key = true
  · rw [if_pos hkey]
    refine (Entries.get?_eq_none_iff.2 fun e he heq => ?_).symm
    have hfalse := h.apart e he
    rw [heq, hkey] at hfalse
    exact absurd hfalse (by simp)
  · have hnone : inside.get? key = none := Entries.get?_eq_none_iff.2 fun e he heq =>
      hkey (heq ▸ h.contains_of_mem he)
    rw [if_neg hkey, hnone, Option.or_none]

end Level

/-! ## The level of a map -/

/-- Under the name of a field stands what is there, and under no other name anything. -/
theorem get?_described (fields : Entries Field) (entries : Entries α) (key : String) :
    (described fields entries).get? key = if fields.contains key then entries.get? key else none := by
  induction fields with
  | nil => rfl
  | cons first rest ih =>
    obtain ⟨name, field⟩ := first
    rw [described, List.filterMap_cons]
    by_cases hname : name = key
    · subst hname
      rw [Entries.contains, Entries.get?, if_pos rfl]
      cases hget : entries.get? name with
      | none =>
        rw [described, hget] at ih
        simpa using ih
      | some a => simp [Entries.get?]
    · have hcontains : Entries.contains ((name, field) :: rest) key = Entries.contains rest key := by
        rw [Entries.contains, Entries.get?, if_neg hname, Entries.contains]
      rw [hcontains]
      cases hget : entries.get? name with
      | none => exact ih
      | some a =>
        show Entries.get? ((name, a) :: described rest entries) key = _
        rw [Entries.get?, if_neg hname, ih]

/-- What the fields describe has names of fields, in their order. -/
theorem keys_described (fields : Entries Field) (entries : Entries α) :
    (described fields entries).keys.Sublist fields.keys := by
  induction fields with
  | nil => exact List.Sublist.refl _
  | cons first rest ih =>
    obtain ⟨name, field⟩ := first
    rw [described, List.filterMap_cons]
    cases entries.get? name with
    | none => exact ih.cons name
    | some a => exact ih.cons_cons name

/-- Entries in key order are a level of what fields describe and what none does. -/
theorem Level.of_ordered {fields : Entries Field} (hfields : fields.Ordered) {entries : Entries α}
    (hentries : entries.Ordered) :
    Level fields (described fields entries) (undescribed fields entries) where
  fields_ordered := hfields
  keys := keys_described fields entries
  outside_ordered := ordered_undescribed hentries fields
  apart := fun _ he => (mem_undescribed.1 he).2

/-- The two sides of a level put together are all entries. -/
theorem insertAll_described {fields : Entries Field} (hfields : fields.Ordered) {entries : Entries α}
    (hentries : entries.Ordered) :
    (described fields entries).insertAll (undescribed fields entries) = entries := by
  have hlevel := Level.of_ordered hfields hentries
  refine hlevel.ordered.ext hentries fun key => ?_
  rw [Entries.get?_insertAll _ hlevel.outside_ordered.distinct, get?_undescribed, get?_described]
  cases fields.contains key with
  | true => simp
  | false => simp

end DocumentSchema
