import DocumentSchema.Entries

/-!
# Maps as ordered lists

A map in key order is determined by its look-ups (`Ordered.ext`). Each operation on maps keeps the
order and has one equation for its look-ups; equalities of maps follow from these two facts.
-/

set_option autoImplicit false

namespace DocumentSchema

/-- What holds of a list, by way of its first item and of the rest, holds of each item. -/
theorem forall_mem_of_cons {α : Type} {one : α → Prop} {all : List α → Prop}
    (hcons : ∀ a as, all (a :: as) → one a ∧ all as) {as : List α} (h : all as) :
    ∀ a ∈ as, one a := by
  induction as with
  | nil => simp
  | cons a as ih =>
    obtain ⟨hone, hrest⟩ := hcons a as h
    exact List.forall_mem_cons.2 ⟨hone, ih hrest⟩

namespace Entries

universe u v

variable {α : Type u} {β : Type v}

/-- No two entries have one key. -/
def Distinct (entries : Entries α) : Prop :=
  entries.Pairwise fun a b => a.1 ≠ b.1

instance (entries : Entries α) : Decidable (Ordered entries) :=
  have _compare : DecidableRel fun a b : String × α => a.1 < b.1 :=
    fun a b => String.decidableLT a.1 b.1
  inferInstanceAs (Decidable (entries.Pairwise fun a b => a.1 < b.1))

/-- No key stands twice among entries in the order of their keys. -/
theorem Ordered.distinct {entries : Entries α} (h : Ordered entries) : Distinct entries := by
  refine List.Pairwise.imp ?_ h
  intro a b hab heq
  rw [heq] at hab
  exact String.lt_irrefl _ hab

/-- Nothing is in order. -/
@[simp] theorem Ordered.nil : Ordered ([] : Entries α) := List.Pairwise.nil

/-- Entries stay in order without the first. -/
theorem Ordered.tail {e : String × α} {rest : Entries α} (h : Ordered (e :: rest)) :
    Ordered rest :=
  (List.pairwise_cons.1 h).2

/-! ## Look-ups and members -/

/-- A key without a value is the key of no entry. -/
theorem get?_eq_none_iff {entries : Entries α} {key : String} :
    entries.get? key = none ↔ ∀ e ∈ entries, e.1 ≠ key := by
  induction entries with
  | nil => simp
  | cons first rest ih =>
    obtain ⟨k, a⟩ := first
    by_cases h : k = key
    · simp [get?, h]
    · simp [get?, h, ih]

/-- A value that is found under a key is an entry. -/
theorem mem_of_get? {entries : Entries α} {key : String} {a : α} (h : entries.get? key = some a) :
    (key, a) ∈ entries := by
  induction entries with
  | nil => exact absurd h (by simp)
  | cons first rest ih =>
    obtain ⟨k, b⟩ := first
    rw [get?] at h
    split at h
    · rename_i same
      rw [same, Option.some.inj h]
      exact List.mem_cons_self
    · exact List.mem_cons_of_mem _ (ih h)

/-- Where no key occurs twice, every member is found at its key. -/
theorem Distinct.get?_of_mem {entries : Entries α} (h : Distinct entries) {key : String} {a : α}
    (hmem : (key, a) ∈ entries) : entries.get? key = some a := by
  induction entries with
  | nil => exact absurd hmem (by simp)
  | cons first rest ih =>
    obtain ⟨k, b⟩ := first
    obtain ⟨apart, distinct⟩ := List.pairwise_cons.1 h
    rw [get?]
    rcases List.mem_cons.1 hmem with same | later
    · obtain ⟨rfl, rfl⟩ := Prod.mk.inj same
      rw [if_pos rfl]
    · rw [if_neg (apart (key, a) later)]
      exact ih distinct later

/-- A key is present exactly if some entry has it. -/
theorem contains_iff {entries : Entries α} {key : String} :
    entries.contains key = true ↔ ∃ e ∈ entries, e.1 = key := by
  rw [contains, Option.isSome_iff_ne_none, Ne, get?_eq_none_iff]
  simp

/-- The entries behind the first do not have its key. -/
theorem Ordered.get?_tail {key : String} {a : α} {rest : Entries α}
    (h : Ordered ((key, a) :: rest)) : get? rest key = none := by
  refine get?_eq_none_iff.2 ?_
  intro e he heq
  have habove := (List.pairwise_cons.1 h).1 e he
  rw [heq] at habove
  exact String.lt_irrefl _ habove

/-- Ordered maps with the same look-ups are the same list. -/
theorem Ordered.ext {xs ys : Entries α} (hxs : Ordered xs) (hys : Ordered ys)
    (h : ∀ key, xs.get? key = ys.get? key) : xs = ys := by
  induction xs generalizing ys with
  | nil =>
    cases ys with
    | nil => rfl
    | cons y ys => exact absurd (h y.1) (by simp [get?])
  | cons x xs ih =>
    cases ys with
    | nil => exact absurd (h x.1) (by simp [get?])
    | cons y ys =>
      obtain ⟨k, a⟩ := x
      obtain ⟨l, b⟩ := y
      have hk : (k, a) ∈ (l, b) :: ys := mem_of_get? (by rw [← h, get?, if_pos rfl])
      have hl : (l, b) ∈ (k, a) :: xs := mem_of_get? (by rw [h, get?, if_pos rfl])
      -- neither first key can lie above the other
      have same : (k, a) = (l, b) := by
        rcases List.mem_cons.1 hk with same | hk
        · exact same
        · rcases List.mem_cons.1 hl with same | hl
          · exact same.symm
          · have hlt := (List.pairwise_cons.1 hxs).1 _ hl
            have hgt := (List.pairwise_cons.1 hys).1 _ hk
            exact absurd (String.lt_trans hlt hgt) (String.lt_irrefl _)
      obtain ⟨rfl, rfl⟩ := Prod.mk.inj same
      rw [ih hxs.tail hys.tail]
      intro key
      by_cases hkey : k = key
      · rw [← hkey, hxs.get?_tail, hys.get?_tail]
      · have hkey' := h key
        rw [get?, get?, if_neg hkey, if_neg hkey] at hkey'
        exact hkey'

/-! ## Keys -/

/-- Entries are in order exactly if their keys ascend. -/
theorem ordered_iff_keys {entries : Entries α} :
    entries.Ordered ↔ entries.keys.Pairwise (· < ·) :=
  List.pairwise_map.symm

/-- Entries for some of the keys of a map are in key order as they stand. -/
theorem Ordered.of_keys {others : Entries β} (h : others.Ordered) {entries : Entries α}
    (hkeys : entries.keys.Sublist others.keys) : entries.Ordered :=
  ordered_iff_keys.2 (List.Pairwise.sublist hkeys (ordered_iff_keys.1 h))

/-- A key that is listed is present. -/
theorem contains_of_mem_keys {entries : Entries α} {key : String} (h : key ∈ entries.keys) :
    entries.contains key = true := by
  obtain ⟨e, he, rfl⟩ := List.mem_map.1 h
  exact contains_iff.2 ⟨e, he, rfl⟩

/-- A key that is present is listed. -/
theorem mem_keys_of_contains {entries : Entries α} {key : String}
    (h : entries.contains key = true) : key ∈ entries.keys := by
  obtain ⟨e, he, rfl⟩ := contains_iff.1 h
  exact List.mem_map_of_mem he

/-- Maps with the same keys contain the same keys. -/
theorem contains_eq_of_keys {entries : Entries α} {others : Entries β}
    (h : entries.keys = others.keys) (key : String) : entries.contains key = others.contains key := by
  rw [Bool.eq_iff_iff]
  constructor
  · intro hkey
    obtain ⟨e, he, rfl⟩ := contains_iff.1 hkey
    exact contains_of_mem_keys (h ▸ List.mem_map_of_mem he)
  · intro hkey
    obtain ⟨e, he, rfl⟩ := contains_iff.1 hkey
    exact contains_of_mem_keys (h ▸ List.mem_map_of_mem he)

/-- Whether entries are in order only depends on their keys. -/
theorem Ordered.of_keys_eq {others : Entries β} (h : others.Ordered) {entries : Entries α}
    (hkeys : entries.keys = others.keys) : entries.Ordered :=
  h.of_keys (hkeys ▸ List.Sublist.refl _)

/-! ## Values replaced, keys picked -/

/-- Under each key stands the function of what stood there. -/
theorem get?_mapValues (f : α → β) (entries : Entries α) (key : String) :
    (entries.mapValues f).get? key = (entries.get? key).map f := by
  induction entries with
  | nil => rfl
  | cons first rest ih =>
    obtain ⟨k, a⟩ := first
    show get? ((k, f a) :: mapValues f rest) key = _
    rw [get?, get?, ih]
    split <;> rfl

/-- Entries stay in order when their values change. -/
theorem Ordered.mapValues {entries : Entries α} (h : Ordered entries) (f : α → β) :
    Ordered (entries.mapValues f) :=
  List.pairwise_map.2 h

/-- Picking entries by their keys leaves the look-ups at these keys alone. -/
theorem get?_filter (p : String → Bool) (entries : Entries α) (key : String) :
    get? (entries.filter fun e => p e.1) key = if p key then entries.get? key else none := by
  induction entries with
  | nil => simp
  | cons first rest ih =>
    obtain ⟨k, a⟩ := first
    by_cases hk : k = key
    · subst hk
      by_cases hp : p k = true
      · simp [hp, get?]
      · simp [hp, ih]
    · by_cases hp : p k = true
      · simp [hp, get?, hk, ih]
      · simp [hp, get?, hk, ih]

/-- Where no key occurs twice, picking entries by any test picks among the look-ups. -/
theorem Distinct.get?_filter {entries : Entries α} (h : Distinct entries) (p : String × α → Bool)
    (key : String) :
    get? (entries.filter p) key = (entries.get? key).filter fun a => p (key, a) := by
  induction entries with
  | nil => rfl
  | cons first rest ih =>
    obtain ⟨k, a⟩ := first
    obtain ⟨apart, distinct⟩ := List.pairwise_cons.1 h
    rw [List.filter_cons, get?]
    by_cases hk : k = key
    · subst hk
      have hnone : get? (rest.filter p) k = none := get?_eq_none_iff.2 fun e he heq =>
        apart e (List.mem_filter.1 he).1 heq.symm
      rw [if_pos rfl, Option.filter_some]
      cases p (k, a) with
      | true => simp [get?]
      | false => simp [hnone]
    · rw [if_neg hk, ← ih distinct]
      cases p (k, a) with
      | true => simp [get?, hk]
      | false => rfl

/-- Entries stay in order when some are left out. -/
theorem Ordered.filter {entries : Entries α} (h : Ordered entries) (p : String × α → Bool) :
    Ordered (entries.filter p) :=
  List.Pairwise.filter p h

/-! ## Entries added -/

/-- After a value was put under a key, that key has it, and every other key what it had. -/
theorem get?_insert (entries : Entries α) (key : String) (a : α) (other : String) :
    (entries.insert key a).get? other = if key = other then some a else entries.get? other := by
  split
  · rename_i same
    rw [← same, get?_insert_self]
  · rename_i differs
    rw [get?_insert_of_ne _ _ differs]

/-- Entries stay in order when others are put among them. -/
theorem Ordered.insertAll {entries : Entries α} (h : Ordered entries) (more : Entries α) :
    Ordered (entries.insertAll more) := by
  induction more generalizing entries with
  | nil => exact h
  | cons first rest ih => exact ih (h.insert first.1 first.2)

/-- Where no added key occurs twice, a look-up sees the added entries before the old ones. -/
theorem get?_insertAll (entries : Entries α) {more : Entries α} (h : Distinct more)
    (key : String) : (entries.insertAll more).get? key = (more.get? key).or (entries.get? key) := by
  induction more generalizing entries with
  | nil => rfl
  | cons first rest ih =>
    obtain ⟨k, a⟩ := first
    obtain ⟨apart, distinct⟩ := List.pairwise_cons.1 h
    show (insertAll (entries.insert k a) rest).get? key = _
    rw [ih _ distinct, get?_insert, get?]
    by_cases hk : k = key
    · have hnone : get? rest key = none := get?_eq_none_iff.2 fun e he heq =>
        apart e he (hk.trans heq.symm)
      rw [if_pos hk, if_pos hk, hnone]
      rfl
    · rw [if_neg hk, if_neg hk]

/-- Of several added entries at one key a look-up finds the last. -/
theorem get?_insertAll_last (entries more : Entries α) (key : String) :
    (entries.insertAll more).get? key =
      ((more.filter fun e => e.1 = key).getLast?.map Prod.snd).or (entries.get? key) := by
  induction more generalizing entries with
  | nil => rfl
  | cons first rest ih =>
    obtain ⟨k, a⟩ := first
    show (insertAll (entries.insert k a) rest).get? key = _
    rw [ih, get?_insert, List.filter_cons]
    by_cases hk : k = key
    · simp only [hk, decide_true, if_true]
      rw [List.getLast?_cons]
      cases (rest.filter fun e => e.1 = key).getLast? <;> rfl
    · simp only [hk, decide_false, Bool.false_eq_true, if_false]

/-- Added entries leave the look-ups at other keys alone. -/
theorem get?_insertAll_of_absent (entries : Entries α) {more : Entries α} {key : String}
    (h : more.get? key = none) : (entries.insertAll more).get? key = entries.get? key := by
  have hnone : (more.filter fun e => e.1 = key) = [] :=
    List.filter_eq_nil_iff.2 fun e he => by simpa using get?_eq_none_iff.1 h e he
  rw [get?_insertAll_last, hnone]
  rfl

/-- An entry after some additions is an added one or an old one. -/
theorem mem_insertAll {entries more : Entries α} {e : String × α}
    (h : e ∈ entries.insertAll more) : e ∈ more ∨ e ∈ entries := by
  induction more generalizing entries with
  | nil => exact Or.inr h
  | cons first rest ih =>
    rcases ih h with hrest | hinsert
    · exact Or.inl (List.mem_cons_of_mem _ hrest)
    · refine (mem_insert hinsert).imp_left ?_
      rintro rfl
      exact List.mem_cons_self

/-- Every key after some additions is an added one or an old one. -/
theorem key_mem_insertAll {entries more : Entries α} {key : String}
    (h : key ∈ (entries.insertAll more).keys) : key ∈ more.keys ∨ key ∈ entries.keys := by
  obtain ⟨e, he, rfl⟩ := List.mem_map.1 h
  exact (mem_insertAll he).imp List.mem_map_of_mem List.mem_map_of_mem

/-- The keys after some additions are the added ones and the old ones. -/
theorem contains_insertAll (entries : Entries α) (more : Entries α) (key : String) :
    (entries.insertAll more).contains key = (more.contains key || entries.contains key) := by
  induction more generalizing entries with
  | nil => rfl
  | cons first rest ih =>
    obtain ⟨k, a⟩ := first
    show (insertAll (entries.insert k a) rest).contains key = _
    rw [ih]
    by_cases hk : k = key
    · simp [contains, get?, get?_insert, hk]
    · simp [contains, get?, get?_insert, hk]

/-- An entry whose key lies above all others goes to the end. -/
theorem insert_eq_concat {entries : Entries α} {key : String} (a : α)
    (h : ∀ e ∈ entries, e.1 < key) : entries.insert key a = entries ++ [(key, a)] := by
  induction entries with
  | nil => rfl
  | cons first rest ih =>
    obtain ⟨k, b⟩ := first
    obtain ⟨hfirst, hrest⟩ := List.forall_mem_cons.1 h
    have hbefore : ¬key < k := fun hlt => String.lt_irrefl _ (String.lt_trans hlt hfirst)
    have hdiffers : ¬key = k := fun heq => String.lt_irrefl _ (heq ▸ hfirst)
    rw [insert, if_neg hbefore, if_neg hdiffers, ih hrest, List.cons_append]

/-- A map is extended by another one whose keys all lie above its own. -/
theorem Ordered.insertAll_eq_append {entries more : Entries α} (h : Ordered (entries ++ more)) :
    entries.insertAll more = entries ++ more := by
  induction more generalizing entries with
  | nil => exact (List.append_nil entries).symm
  | cons first rest ih =>
    have hbelow : ∀ e ∈ entries, e.1 < first.1 :=
      fun e he => (List.pairwise_append.1 h).2.2 e he first List.mem_cons_self
    rw [List.append_cons] at h ⊢
    show (entries.insert first.1 first.2).insertAll rest = _
    rw [insert_eq_concat first.2 hbelow]
    exact ih h

/-- A list in key order is the map of its entries. -/
theorem Ordered.ofList_eq {entries : Entries α} (h : Ordered entries) :
    ofList entries = entries := by
  have hfront : Ordered ([] ++ entries) := h
  exact hfront.insertAll_eq_append

/-! ## An entry removed -/

/-- Without a key, entries are among those there were, in the same order. -/
theorem erase_sublist (entries : Entries α) (key : String) :
    List.Sublist (entries.erase key) entries := by
  induction entries with
  | nil => exact List.Sublist.refl _
  | cons first rest ih =>
    obtain ⟨k, a⟩ := first
    rw [erase]
    split
    · exact List.sublist_cons_self _ _
    · exact ih.cons_cons _

/-- Entries stay in order without a key. -/
theorem Ordered.erase {entries : Entries α} (h : Ordered entries) (key : String) :
    Ordered (entries.erase key) :=
  List.Pairwise.sublist (erase_sublist entries key) h

/-- Where no key occurs twice, a removed key is not found any more, and the others still are. -/
theorem Distinct.get?_erase {entries : Entries α} (h : Distinct entries) (key other : String) :
    (entries.erase key).get? other = if key = other then none else entries.get? other := by
  induction entries with
  | nil => simp [Entries.erase]
  | cons first rest ih =>
    obtain ⟨k, a⟩ := first
    obtain ⟨apart, distinct⟩ := List.pairwise_cons.1 h
    rw [Entries.erase, get?]
    by_cases hk : k = key
    · rw [if_pos hk]
      by_cases hother : key = other
      · rw [if_pos hother]
        refine get?_eq_none_iff.2 ?_
        intro e he heq
        exact apart e he (hk.trans (hother.trans heq.symm))
      · rw [if_neg hother, if_neg (fun heq => hother (hk.symm.trans heq))]
    · rw [if_neg hk, get?, ih distinct]
      by_cases hother : k = other
      · rw [if_pos hother, if_pos hother, if_neg (fun heq => hk (hother.trans heq.symm))]
      · rw [if_neg hother, if_neg hother]

/-- Setting the value at a key makes up for the entry removed there. -/
theorem Ordered.insert_erase {entries : Entries α} (h : Ordered entries) (key : String) (a : α) :
    (entries.erase key).insert key a = entries.insert key a := by
  refine ((h.erase key).insert key a).ext (h.insert key a) ?_
  intro other
  rw [get?_insert, get?_insert, h.distinct.get?_erase]
  split <;> rfl

end Entries

end DocumentSchema
