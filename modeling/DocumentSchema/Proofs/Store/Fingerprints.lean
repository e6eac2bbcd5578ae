import DocumentSchema.Proofs.Entries
import DocumentSchema.Proofs.Store.Runs
import DocumentSchema.Proofs.Text.Hex

/-!
# Indexes and their fingerprints

A store keeps an index and the note with its fingerprint in two maps, which models change one after
the other. `Store.InStep` says that the maps agree: exactly the indexes are noted, each with the
fingerprint of the arguments it was created with. In such a store a model can always create its
index (`createIndex_eq`), and every event keeps the store in step (`Store.InStep.next`), so it is in
step after every run, however many models use one name for their indexes.
-/

set_option autoImplicit false

namespace DocumentSchema

open Query (Edit)

open Query.Edit (on_get_bind on_bind)

/-- The fingerprint of the arguments of an index. -/
def argumentsFingerprint (arguments : List String) : String :=
  Text.hexText (Sha256.digest (IndexDefinition.frames arguments))

/-- The key of the note on an index. -/
def noteKey (name : String) : String := name ++ ":hash"

/-- Indexes with different names have different notes. -/
theorem noteKey_inj {name other : String} : noteKey name = noteKey other ↔ name = other := by
  simp [noteKey]

namespace Store

/-- The store with the index of a model, noted with its fingerprint. -/
def withIndex (store : Store) (m : Model) : Store :=
  { store with
    indexes := store.indexes.insert m.indexName m.indexDefinition.arguments
    notes := store.notes.insert m.fingerprintKey m.indexDefinition.fingerprint }

/-- The store without the index of a model and without its note. -/
def withoutIndex (store : Store) (m : Model) : Store :=
  { store with
    indexes := store.indexes.erase m.indexName
    notes := store.notes.erase m.fingerprintKey }

end Store

/-! ## Calls on indexes -/

namespace Model

/-- Creating an index does nothing where its fingerprint is noted, and drops what was there
otherwise. -/
theorem createIndex_on (m : Model) (store : Store) :
    Edit.on m.createIndex store =
      if store.note? m.fingerprintKey = some m.indexDefinition.fingerprint then (.ok false, store)
      else
        match
          if (store.note? m.fingerprintKey).isSome then store.dropIndex m.indexName
          else .ok store with
        | .error e => (.error (.store e), store)
        | .ok dropped =>
          match dropped.createIndex m.indexDefinition.arguments with
          | .error e => (.error (.store e), dropped)
          | .ok created =>
            (.ok true, created.setNote m.fingerprintKey m.indexDefinition.fingerprint) := by
  unfold createIndex
  dsimp only
  rw [on_get_bind]
  split
  · rfl
  · split
    · rw [on_bind, Action.on_update]
      cases store.dropIndex m.indexName with
      | error e => rfl
      | ok dropped =>
        dsimp only
        rw [on_bind, Action.on_update]
        cases dropped.createIndex m.indexDefinition.arguments <;> rfl
    · rw [on_bind, Action.on_update]
      dsimp only
      cases store.createIndex m.indexDefinition.arguments <;> rfl

/-- The index of a model is dropped together with its note, if it is there. -/
theorem dropIndex_on (m : Model) (store : Store) :
    Edit.on m.dropIndex store =
      if store.indexes.contains m.indexName then (.ok (), store.withoutIndex m)
      else (.error (.store .unknownIndex), store) := by
  unfold dropIndex
  rw [on_bind, Action.on_update, Store.dropIndex]
  cases store.indexes.contains m.indexName <;> rfl

/-- The first argument of an index is its name. -/
theorem head?_arguments (m : Model) : m.indexDefinition.arguments.head? = some m.indexName := rfl

end Model

namespace Store

/-- An index without a name in use is created. -/
theorem createIndex_of_absent {store : Store} {name : String} {arguments : List String}
    (hname : arguments.head? = some name) (habsent : store.indexes.get? name = none) :
    store.createIndex arguments =
      .ok { store with indexes := store.indexes.insert name arguments } := by
  cases arguments with
  | nil => cases hname
  | cons first rest =>
    obtain rfl := Option.some.inj hname
    unfold createIndex
    dsimp only
    rw [Entries.contains, habsent]
    rfl

/-- The indexes and the notes. -/
def indexView (store : Store) : Entries (List String) × Entries String :=
  (store.indexes, store.notes)

/-- Indexes and notes do not depend on documents and searches. -/
theorem ofIndexes_indexView : Model.OfIndexes indexView := fun _ _ _ => rfl

/-- Every index was created with the arguments of one of the models, and exactly the indexes are
noted, with the fingerprints of these arguments. -/
structure InStep (models : List Model) (store : Store) : Prop where
  indexes_ordered : store.indexes.Ordered
  notes_ordered : store.notes.Ordered
  noted : ∀ name, store.note? (noteKey name) =
    (store.indexes.get? name).map argumentsFingerprint
  owned : ∀ name arguments, store.indexes.get? name = some arguments →
    ∃ m ∈ models, m.indexDefinition.arguments = arguments

namespace InStep

variable {models : List Model} {store : Store}

/-- An empty store is in step. -/
theorem empty (models : List Model) : InStep models {} where
  indexes_ordered := Entries.Ordered.nil
  notes_ordered := Entries.Ordered.nil
  noted := fun _ => rfl
  owned := by
    intro name arguments h
    cases h

/-- Documents and the log have no part in it. -/
theorem of_view (h : store.InStep models) {next : Store}
    (hview : next.indexView = store.indexView) : next.InStep models := by
  obtain ⟨hindexes, hnotes⟩ := Prod.mk.inj hview
  refine ⟨hindexes ▸ h.indexes_ordered, hnotes ▸ h.notes_ordered, ?_, ?_⟩
  · intro name
    have hnoted := h.noted name
    rw [note?] at hnoted ⊢
    rw [hnotes, hindexes, hnoted]
  · intro name arguments hget
    rw [hindexes] at hget
    exact h.owned name arguments hget

/-- A store stays in step with the index of a model. -/
theorem withIndex (h : store.InStep models) {m : Model} (hm : m ∈ models) :
    (store.withIndex m).InStep models := by
  refine ⟨h.indexes_ordered.insert _ _, h.notes_ordered.insert _ _, ?_, ?_⟩
  · intro name
    show (store.notes.insert (noteKey m.indexName) m.indexDefinition.fingerprint).get?
      (noteKey name) = ((store.indexes.insert m.indexName m.indexDefinition.arguments).get? name).map
        argumentsFingerprint
    have hnoted : store.notes.get? (noteKey name) = _ := h.noted name
    rw [Entries.get?_insert, Entries.get?_insert, hnoted]
    by_cases hname : m.indexName = name
    · rw [if_pos (noteKey_inj.2 hname), if_pos hname]
      rfl
    · rw [if_neg fun heq => hname (noteKey_inj.1 heq), if_neg hname]
  · intro name arguments hget
    have hget : (store.indexes.insert m.indexName m.indexDefinition.arguments).get? name =
      some arguments := hget
    rw [Entries.get?_insert] at hget
    split at hget
    · exact ⟨m, hm, Option.some.inj hget⟩
    · exact h.owned name arguments hget

/-- A store stays in step without the index of a model. -/
theorem withoutIndex (h : store.InStep models) (m : Model) :
    (store.withoutIndex m).InStep models := by
  have hindexes := h.indexes_ordered.distinct
  have hnotes := h.notes_ordered.distinct
  refine ⟨h.indexes_ordered.erase _, h.notes_ordered.erase _, ?_, ?_⟩
  · intro name
    show (store.notes.erase (noteKey m.indexName)).get? (noteKey name) =
      ((store.indexes.erase m.indexName).get? name).map argumentsFingerprint
    have hnoted : store.notes.get? (noteKey name) = _ := h.noted name
    rw [hnotes.get?_erase, hindexes.get?_erase, hnoted]
    by_cases hname : m.indexName = name
    · rw [if_pos (noteKey_inj.2 hname), if_pos hname]
      rfl
    · rw [if_neg fun heq => hname (noteKey_inj.1 heq), if_neg hname]
  · intro name arguments hget
    have hget : (store.indexes.erase m.indexName).get? name = some arguments := hget
    rw [hindexes.get?_erase] at hget
    split at hget
    · cases hget
    · exact h.owned name arguments hget

/-- In a store that is in step a model keeps an index with its own fingerprint, and otherwise puts
its own in the place of the one there. -/
theorem createIndex_eq (h : store.InStep models) (m : Model) :
    Edit.on m.createIndex store =
      if (store.indexes.get? m.indexName).map argumentsFingerprint =
          some m.indexDefinition.fingerprint then (.ok false, store)
      else (.ok true, store.withIndex m) := by
  have hnoted : store.note? m.fingerprintKey = _ := h.noted m.indexName
  rw [Model.createIndex_on, hnoted]
  split
  · rfl
  · cases hget : store.indexes.get? m.indexName with
    | none =>
      have hcreate := createIndex_of_absent m.head?_arguments hget
      simp only [Option.map_none, Option.isSome_none, Bool.false_eq_true, if_false]
      rw [hcreate]
      rfl
    | some arguments =>
      have hdrop : store.dropIndex m.indexName = .ok { store with
          indexes := store.indexes.erase m.indexName } := by
        rw [dropIndex, Entries.contains, hget]
        rfl
      have habsent : (store.indexes.erase m.indexName).get? m.indexName = none := by
        rw [h.indexes_ordered.distinct.get?_erase, if_pos rfl]
      simp only [Option.map_some, Option.isSome_some, if_true]
      rw [hdrop]
      dsimp only
      rw [createIndex_of_absent m.head?_arguments habsent]
      dsimp only
      rw [h.indexes_ordered.insert_erase]
      rfl

/-- Every event of the models keeps a store in step. -/
theorem next (h : store.InStep models) {event : Event} (hevent : event.By models) :
    (store.next event).InStep models := by
  cases event with
  | clear => exact empty models
  | call m call =>
    rw [next_call]
    cases call with
    | createIndex =>
      dsimp only
      rw [h.createIndex_eq m]
      split
      · exact h
      · exact h.withIndex hevent
    | dropIndex =>
      dsimp only
      rw [m.dropIndex_on]
      split
      · exact h.withoutIndex m
      · exact h
    | save id doc => exact h.of_view (Model.save_keeps ofIndexes_indexView m id doc store)
    | fetch id => exact h.of_view (Model.fetch_keeps m id store)
    | remove id => exact h.of_view (Model.remove_keeps ofIndexes_indexView m id store)
    | execute search => exact h.of_view (Model.execute_keeps ofIndexes_indexView m search store)

/-- A model whose fingerprint an index has in a store that is in step created it with its own
arguments, if the digests of the models' arguments are distinct. -/
theorem arguments_eq (h : store.InStep models)
    (hdigests : ∀ m ∈ models, ∀ o ∈ models,
      Sha256.digest (IndexDefinition.frames m.indexDefinition.arguments) =
          Sha256.digest (IndexDefinition.frames o.indexDefinition.arguments) →
        m.indexDefinition.arguments = o.indexDefinition.arguments)
    {m : Model} (hm : m ∈ models)
    (hfingerprint : (store.indexes.get? m.indexName).map argumentsFingerprint =
      some m.indexDefinition.fingerprint) :
    store.indexes.get? m.indexName = some m.indexDefinition.arguments := by
  obtain ⟨arguments, hget, hsame⟩ := Option.map_eq_some_iff.1 hfingerprint
  obtain ⟨o, ho, rfl⟩ := h.owned _ _ hget
  rw [hget, hdigests o ho m hm (Text.hexText_inj hsame)]

end InStep

/-- After every run of models on a store, exactly the indexes are noted, with the fingerprints of
their arguments. If the digests of the models' arguments are distinct, each model can then create
its index. It does so exactly if the index is not there with its own arguments, with which it is
there afterwards. -/
theorem createIndex_after_run {models : List Model}
    (hdigests : ∀ m ∈ models, ∀ o ∈ models,
      Sha256.digest (IndexDefinition.frames m.indexDefinition.arguments) =
          Sha256.digest (IndexDefinition.frames o.indexDefinition.arguments) →
        m.indexDefinition.arguments = o.indexDefinition.arguments)
    {events : List Event} (hevents : ∀ event ∈ events, event.By models) :
    (∀ name, (run events).note? (noteKey name) =
        ((run events).indexes.get? name).map argumentsFingerprint) ∧
      ∀ m ∈ models, ∃ created next, Edit.on m.createIndex (run events) = (.ok created, next) ∧
        (created = true ↔
          (run events).indexes.get? m.indexName ≠ some m.indexDefinition.arguments) ∧
        next.indexes.get? m.indexName = some m.indexDefinition.arguments := by
  have hstep : ∀ store event, InStep models store → event.By models →
      InStep models (store.next event) :=
    fun store event hstore hevent => hstore.next hevent
  have hrun : (run events).InStep models := run_induction (InStep.empty models) hstep hevents
  refine ⟨hrun.noted, ?_⟩
  intro m hm
  have hcreate := hrun.createIndex_eq m
  split at hcreate
  · rename_i hfingerprint
    have hget := hrun.arguments_eq hdigests hm hfingerprint
    exact ⟨false, run events, hcreate, by simp [hget], hget⟩
  · rename_i hfingerprint
    have hdiffers : (run events).indexes.get? m.indexName ≠ some m.indexDefinition.arguments := by
      intro hget
      rw [hget] at hfingerprint
      exact hfingerprint rfl
    exact ⟨true, _, hcreate, by simp [hdiffers], Entries.get?_insert_self _ _ _⟩

end Store

/-! ## Two models with one index -/

/-- Rooms with a number of beds. -/
def roomModel : Model where
  name := "room"
  schema := { fields := [("beds", .ofKind (.number none))], references := [], relations := [],
              warnings := [] }
  settings := {}

/-- A later version of the model, with another kind of field. -/
def roomModelRevised : Model :=
  { roomModel with schema := { roomModel.schema with
      fields := [("beds", .ofKind (.bigInt none))] } }

/-- Both models create their index, one stores a room and creates its index again. -/
def roomEvents : List Store.Event :=
  [.call roomModel .createIndex, .call roomModelRevised .createIndex,
    .call roomModel (.save "1" [("beds", .bool true)]), .call roomModel .createIndex]

/-- The index of rooms is created again after its schema was revised. -/
theorem Store.createIndex_after_run_rooms :
    (∀ m ∈ [roomModel, roomModelRevised], ∀ o ∈ [roomModel, roomModelRevised],
      Sha256.digest (IndexDefinition.frames m.indexDefinition.arguments) =
          Sha256.digest (IndexDefinition.frames o.indexDefinition.arguments) →
        m.indexDefinition.arguments = o.indexDefinition.arguments) ∧
    (∀ event ∈ roomEvents, event.By [roomModel, roomModelRevised]) ∧
    roomModelRevised.indexName = roomModel.indexName ∧
    ∃ created next,
      Edit.on roomModelRevised.createIndex (Store.run roomEvents) = (.ok created, next) ∧
        (created = true ↔ (Store.run roomEvents).indexes.get? roomModelRevised.indexName ≠
          some roomModelRevised.indexDefinition.arguments) ∧
        next.indexes.get? roomModelRevised.indexName =
          some roomModelRevised.indexDefinition.arguments := by
  have hdigests : ∀ m ∈ [roomModel, roomModelRevised], ∀ o ∈ [roomModel, roomModelRevised],
      Sha256.digest (IndexDefinition.frames m.indexDefinition.arguments) =
          Sha256.digest (IndexDefinition.frames o.indexDefinition.arguments) →
        m.indexDefinition.arguments = o.indexDefinition.arguments := by
    have hdiffer : Sha256.digest (IndexDefinition.frames roomModel.indexDefinition.arguments) ≠
        Sha256.digest (IndexDefinition.frames roomModelRevised.indexDefinition.arguments) := by
      decide +kernel
    simp [hdiffer, hdiffer.symm]
  have hevents : ∀ event ∈ roomEvents, event.By [roomModel, roomModelRevised] := by
    simp [roomEvents, Store.Event.By]
  exact ⟨hdigests, hevents, rfl,
    (Store.createIndex_after_run hdigests hevents).2 roomModelRevised (by simp)⟩

end DocumentSchema
