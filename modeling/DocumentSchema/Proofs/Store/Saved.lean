import Mathlib.Data.List.Induction
import DocumentSchema.Proofs.Outcome
import DocumentSchema.Proofs.Store.Effects

/-!
# What was saved last

A model alone on a store fetches what it saved. Of the calls on an identifier the last one that
counts says what is there: a save whose document can be encoded, or a removal (`Model.LastSaved`).
The store holds just these encodings, each at the key of its identifier, less those of which a hash
keeps nothing (`Model.Holds`). Every call preserves this, the refused ones too, and so it holds
after every run (`Model.documents_after_run`).
-/

set_option autoImplicit false

namespace DocumentSchema

open Query (Edit)

namespace Model

/-! ## The last save -/

/-- The call settles what there is of an identifier: it removes it, or saves a document that can be
encoded. -/
def Settles (m : Model) (id : String) : Call → Prop
  | .save other doc => other = id ∧ Outcome.Succeeds (m.encode doc)
  | .remove other => other = id
  | _ => False

/-- The last call to settle an identifier saved a document of this encoding. -/
def LastSaved (m : Model) (calls : List Call) (id : String) (stored : Stored) : Prop :=
  ∃ before doc after, calls = before ++ .save id doc :: after ∧ m.encode doc = .ok stored ∧
    ∀ call ∈ after, ¬m.Settles id call

/-- The encoding saved last under an identifier, after one more call. -/
def saved (m : Model) (id : String) (last : Option Stored) : Call → Option Stored
  | .save other doc =>
    match m.encode doc with
    | .ok stored => if other = id then some stored else last
    | .error _ => last
  | .remove other => if other = id then none else last
  | _ => last

/-- What the calls leave of an identifier. -/
def lastSaved? (m : Model) (calls : List Call) (id : String) : Option Stored :=
  calls.foldl (m.saved id) none

variable {m : Model} {calls : List Call} {call : Call} {id : String} {stored : Stored}

/-- The last call decides what was saved last. -/
theorem lastSaved?_concat (m : Model) (calls : List Call) (call : Call) (id : String) :
    m.lastSaved? (calls ++ [call]) id = m.saved id (m.lastSaved? calls id) call := by
  simp [lastSaved?]

/-- A call that settles nothing for the identifier leaves the last save as it was. -/
theorem saved_of_not_settles (h : ¬m.Settles id call) (last : Option Stored) :
    m.saved id last call = last := by
  cases call with
  | save other doc =>
    unfold saved
    dsimp only
    split
    · rename_i stored hencode
      exact if_neg fun hsame => h ⟨hsame, stored, hencode⟩
    · rfl
  | remove other => exact if_neg h
  | _ => rfl

/-- A call that settles an identifier saves a document under it, or leaves none. -/
theorem saved_of_settles (h : m.Settles id call) (last : Option Stored) :
    m.saved id last call = some stored ↔
      ∃ doc, call = .save id doc ∧ m.encode doc = .ok stored := by
  cases call with
  | save other doc =>
    obtain ⟨rfl, encoded, hencode⟩ := h
    simp [saved, hencode]
  | remove other =>
    obtain rfl := h
    simp [saved]
  | _ => exact h.elim

/-- A document was saved last by the last call, or before a call that does not settle it. -/
theorem lastSaved_concat : m.LastSaved (calls ++ [call]) id stored ↔
    (∃ doc, call = .save id doc ∧ m.encode doc = .ok stored) ∨
      ¬m.Settles id call ∧ m.LastSaved calls id stored := by
  constructor
  · rintro ⟨before, doc, after, hcalls, hencode, hafter⟩
    rcases List.eq_nil_or_concat after with rfl | ⟨init, last, rfl⟩
    · obtain ⟨_, hlast⟩ := List.append_inj' hcalls rfl
      obtain ⟨rfl, _⟩ := List.cons.inj hlast
      exact Or.inl ⟨doc, rfl, hencode⟩
    · rw [List.concat_eq_append, ← List.cons_append, ← List.append_assoc] at hcalls
      obtain ⟨rfl, hlast⟩ := List.append_inj' hcalls rfl
      obtain ⟨rfl, _⟩ := List.cons.inj hlast
      rw [List.concat_eq_append] at hafter
      refine Or.inr ⟨hafter call ?_, before, doc, init, rfl, hencode, ?_⟩
      · simp
      · intro other hother
        exact hafter other (List.mem_append_left _ hother)
  · rintro (⟨doc, rfl, hencode⟩ | ⟨hcall, before, doc, after, rfl, hencode, hafter⟩)
    · exact ⟨calls, doc, [], rfl, hencode, fun _ h => absurd h List.not_mem_nil⟩
    · refine ⟨before, doc, after ++ [call], by simp, hencode, ?_⟩
      intro other hother
      rcases List.mem_append.1 hother with hin | hin
      · exact hafter other hin
      · obtain rfl := List.mem_singleton.1 hin
        exact hcall

/-- The encoding saved last is computed call by call. -/
theorem lastSaved?_eq_some_iff : m.lastSaved? calls id = some stored ↔
    m.LastSaved calls id stored := by
  induction calls using List.reverseRecOn with
  | nil =>
    constructor
    · rintro ⟨⟩
    · rintro ⟨before, doc, after, hcalls, _⟩
      simp at hcalls
  | append_singleton before call ih =>
    rw [lastSaved?_concat, lastSaved_concat]
    by_cases hcall : m.Settles id call
    · rw [saved_of_settles hcall]
      exact (or_iff_left fun h => h.1 hcall).symm
    · rw [saved_of_not_settles hcall, ih]
      constructor
      · exact fun h => Or.inr ⟨hcall, h⟩
      · rintro (⟨doc, rfl, hencode⟩ | ⟨_, h⟩)
        · exact absurd ⟨rfl, stored, hencode⟩ hcall
        · exact h

/-! ## What the store holds -/

/-- The store holds what was saved last under each identifier, unless it is blank. -/
structure Holds (m : Model) (last : String → Option Stored) (store : Store) : Prop where
  tidy : store.Tidy [m]
  documents : ∀ id, store.documents.get? (m.settings.key id) = (last id).bind Stored.kept?

/-- An empty store holds nothing. -/
theorem Holds.empty (m : Model) : m.Holds (fun _ => none) {} where
  tidy := Store.Tidy.empty [m]
  documents := fun _ => rfl

variable {last : String → Option Stored} {store : Store}

/-- Every call keeps the store and the last saves together. -/
theorem Holds.next (h : m.Holds last store) (call : Call) :
    m.Holds (fun id => m.saved id (last id) call) (store.next (.call m call)) := by
  have hordered := h.tidy.ordered
  have hchanges := changes_next h.tidy.inStep m call
  refine ⟨h.tidy.next (List.mem_singleton.2 rfl) call, ?_⟩
  intro id
  cases call with
  | save other doc =>
    rw [Store.next_call]
    dsimp only
    rw [m.save_on, saved]
    cases m.encode doc with
    | error e => exact h.documents id
    | ok stored =>
      dsimp only
      rw [Store.get?_put hordered, h.documents]
      by_cases hsame : other = id <;> simp [Settings.key_inj, hsame]
  | remove other =>
    show (store.delete _).documents.get? _ = _
    rw [Store.get?_delete hordered, h.documents, saved]
    by_cases hsame : other = id <;> simp [Settings.key_inj, hsame]
  | fetch other =>
    rw [Store.next_call]
    dsimp only
    rw [m.fetch_on]
    exact h.documents id
  | _ =>
    refine (hchanges.document_of_ne hordered ?_).trans (h.documents id)
    rintro other ⟨⟩

/-- The store has a document under an identifier if the last save was of one that is kept. -/
theorem Holds.holds_iff (h : m.Holds last store) (id : String) :
    store.holds (m.settings.key id) = true ↔
      ∃ stored, last id = some stored ∧ stored.isBlank = false := by
  rw [Store.holds, Entries.contains, h.documents]
  cases last id with
  | none => simp
  | some stored => cases hblank : stored.isBlank <;> simp [Stored.kept?, hblank]

/-- What a model encoded it can look at again. -/
theorem fetched_of_encode {doc : Document} (h : m.encode doc = .ok stored) (key : String) :
    m.fetched key (some stored) = ((m.ofStored stored).mapError .decode).map some := by
  unfold encode at h
  unfold fetched
  cases hform : m.settings.storage with
  | hash =>
    rw [hform] at h
    obtain ⟨fields, _, rfl⟩ := Outcome.map_eq_ok.1 h
    rfl
  | json =>
    rw [hform] at h
    obtain ⟨json, _, rfl⟩ := Outcome.map_eq_ok.1 h
    rfl

/-- What was saved last is fetched, decoded again, unless it is blank. -/
theorem Holds.fetch_saved (h : m.Holds last store) {doc : Document}
    (hlast : last id = some stored) (hencode : m.encode doc = .ok stored) :
    Edit.on (m.fetch id) store =
      (if stored.isBlank then .ok none else ((m.ofStored stored).mapError .decode).map some,
        store) := by
  rw [m.fetch_on, h.documents, hlast, Option.bind_some, Stored.kept?]
  split
  · rfl
  · rw [fetched_of_encode hencode]

/-- A call on one identifier leaves what is held for the others. -/
theorem Holds.document_of_ne (h : m.Holds last store) (hid : call.id? = some id) {other : String}
    (hdiffers : id ≠ other) :
    (store.next (.call m call)).documents.get? (m.settings.key other) =
      store.documents.get? (m.settings.key other) := by
  apply (changes_next h.tidy.inStep m call).document_of_ne h.tidy.ordered
  intro found hfound hkey
  obtain rfl := Option.some.inj (hid.symm.trans hfound)
  exact hdiffers (Settings.key_inj.1 hkey)

/-! ## Runs -/

/-- After calls a store holds what they saved last. -/
theorem holds_run (m : Model) (calls : List Call) :
    m.Holds (m.lastSaved? calls) (Store.run (calls.map (.call m))) := by
  induction calls using List.reverseRecOn with
  | nil => exact Holds.empty m
  | append_singleton before call ih =>
    have hnext := ih.next call
    rw [Store.run, List.map_append, List.foldl_append]
    have hlast : (fun id => m.saved id (m.lastSaved? before id) call) =
        m.lastSaved? (before ++ [call]) :=
      funext fun id => (lastSaved?_concat m before call id).symm
    rw [hlast] at hnext
    exact hnext

/-- After any calls of a model that is alone on a store, it fetches under an identifier what was
saved last, decoded again, and nothing if nothing was or a hash keeps nothing of it; the same tells
whether there is anything to remove. To fetch changes nothing, nor does a save of a document that
cannot be encoded, and a call on one identifier leaves what is held for the others. -/
theorem documents_after_run (m : Model) (calls : List Call) :
    let store := Store.run (calls.map (.call m))
    (∀ id stored, m.LastSaved calls id stored → Edit.on (m.fetch id) store =
      (if stored.isBlank then .ok none else ((m.ofStored stored).mapError .decode).map some,
        store)) ∧
    (∀ id, (∀ stored, ¬m.LastSaved calls id stored) →
      Edit.on (m.fetch id) store = (.ok none, store)) ∧
    (∀ id, ∃ existed,
      Edit.on (m.remove id) store = (.ok existed, store.delete (m.settings.key id)) ∧
      (existed = true ↔ store.documents.get? (m.settings.key id) ≠ none) ∧
      (existed = true ↔ ∃ stored, m.LastSaved calls id stored ∧ stored.isBlank = false)) ∧
    (∀ id doc e, m.encode doc = .error e →
      Edit.on (m.save id doc) store = (.error (.encode e), store)) ∧
    (∀ call id other, call.id? = some id → id ≠ other →
      (store.next (.call m call)).documents.get? (m.settings.key other) =
        store.documents.get? (m.settings.key other)) := by
  intro store
  have hholds : m.Holds (m.lastSaved? calls) store := holds_run m calls
  refine ⟨?_, ?_, ?_, ?_, ?_⟩
  · intro id stored hlast
    have hcomputed := lastSaved?_eq_some_iff.2 hlast
    obtain ⟨_, doc, _, _, hencode, _⟩ := hlast
    exact hholds.fetch_saved hcomputed hencode
  · intro id hnone
    have hlast : m.lastSaved? calls id = none := by
      rw [Option.eq_none_iff_forall_ne_some]
      intro stored hlast
      exact hnone stored (lastSaved?_eq_some_iff.1 hlast)
    rw [m.fetch_on, hholds.documents, hlast]
    rfl
  · intro id
    refine ⟨store.holds (m.settings.key id), m.remove_on id store, ?_, ?_⟩
    · exact Option.isSome_iff_ne_none
    · simp only [hholds.holds_iff, lastSaved?_eq_some_iff]
  · intro id doc e hencode
    rw [m.save_on, hencode]
  · intro call id other hid hdiffers
    exact hholds.document_of_ne hid hdiffers

end Model

/-! ## Notes on a desk -/

/-- Things on a desk with texts in hashes. -/
def deskModel : Model where
  name := "desk"
  schema := { fields := [("text", .mk (.string ',' false) true false true none)], references := [],
              relations := [], warnings := [] }
  settings := { storage := .hash, keyStart := "desk:" }

/-- A note that stays although the save after it is refused, and one saved again as a blank. -/
def deskCalls : List Model.Call :=
  [.save "ink" [("text", .string "blue")], .save "pen" [("text", .string "steel")],
    .save "ink" [("text", .array [])], .save "pen" []]

/-- A desk after one document was overwritten by a blank one and another could not be. -/
theorem Model.documents_after_run_desk :
    let store := Store.run (deskCalls.map (.call deskModel))
    Edit.on (deskModel.fetch "ink") store = (.ok (some [("text", .string "blue")]), store) ∧
      Edit.on (deskModel.fetch "pen") store = (.ok none, store) ∧
      (Edit.on (deskModel.remove "ink") store).1 = .ok true := by
  intro store
  obtain ⟨hfetch, _, hremove, _⟩ := Model.documents_after_run deskModel deskCalls
  have hink : deskModel.LastSaved deskCalls "ink" (.hash [("text", "blue")]) := by
    obtain ⟨e, he⟩ : ∃ e, deskModel.encode [("text", .array [])] = .error e := ⟨_, rfl⟩
    refine ⟨[], [("text", .string "blue")], _, rfl, rfl, ?_⟩
    simp [Model.Settles, he, Outcome.not_succeeds_error]
  have hpen : deskModel.LastSaved deskCalls "pen" (.hash []) := by
    refine ⟨deskCalls.take 3, [], [], rfl, rfl, ?_⟩
    simp
  refine ⟨hfetch "ink" _ hink, hfetch "pen" _ hpen, ?_⟩
  obtain ⟨existed, hon, _, hexisted⟩ := hremove "ink"
  obtain rfl := hexisted.2 ⟨_, hink, rfl⟩
  rw [hon]

end DocumentSchema
