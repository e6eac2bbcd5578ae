import DocumentSchema.Model
import DocumentSchema.Proofs.Query.Edit

/-!
# Runs of models on a store

Any number of models may share a store. They are called one after the other, and the store may be
cleared in between; a call that fails leaves the store as far as it got. `Store.run` is the store
after such events. What a call leaves alone is said by what is seen of the store (`Action.Keeps`),
with one rule for each step of an action.
-/

set_option autoImplicit false

namespace DocumentSchema

open Query (Edit)

open Query.Edit (on_get_bind on_bind)

namespace Model

/-- A call of a model. -/
inductive Call where
  | createIndex
  | dropIndex
  | save (id : String) (doc : Document)
  | fetch (id : String)
  | remove (id : String)
  | execute (search : Query.Search)

/-- What a model answers to a call. -/
inductive Answer where
  | done
  | created (new : Bool)
  | fetched (doc : Option Document)
  | removed (existed : Bool)
  | found (results : Results)

/-- What a call does to a store, with its answer. -/
def perform (m : Model) : Call → Action Answer
  | .createIndex => do return .created (← m.createIndex)
  | .dropIndex => do
    m.dropIndex
    return .done
  | .save id doc => do
    m.save id doc
    return .done
  | .fetch id => do return .fetched (← m.fetch id)
  | .remove id => do return .removed (← m.remove id)
  | .execute search => do return .found (← m.execute search)

end Model

namespace Store

/-- What happens to a store: a model that uses it is called, or the store is cleared. -/
inductive Event where
  | call (m : Model) (call : Model.Call)
  | clear

/-- Whether an event is a call of one of the models, or of none. -/
def Event.By (models : List Model) : Event → Prop
  | .call m _ => m ∈ models
  | .clear => True

/-- The store after an event. -/
def next (store : Store) : Event → Store
  | .call m call => (Edit.on (m.perform call) store).2
  | .clear => store.clear

/-- The store after some events, empty at first. -/
def run (events : List Event) : Store := events.foldl next {}

/-- What holds of the empty store and is kept by every event of the models holds after every run. -/
theorem run_induction {models : List Model} {p : Store → Prop} (hempty : p {})
    (hnext : ∀ store event, p store → event.By models → p (store.next event)) {events : List Event}
    (hevents : ∀ event ∈ events, event.By models) : p (run events) := by
  have hrun : ∀ store, p store → p (events.foldl next store) := by
    induction events with
    | nil => exact fun _ h => h
    | cons event rest ih =>
      obtain ⟨hevent, hrest⟩ := List.forall_mem_cons.1 hevents
      intro store hstore
      exact ih hrest (store.next event) (hnext store event hstore hevent)
  exact hrun {} hempty

end Store

/-! ## Steps of actions -/

namespace Action

variable {α β σ : Type}

/-- A result in a store is had and changes nothing. -/
theorem on_lift {ε : Type} (wrap : ε → ModelError) (result : Except ε α) (store : Store) :
    Edit.on (lift wrap result) store = (result.mapError wrap, store) := by
  cases result <;> rfl

/-- A change of the store is done or refused, and refused it changes nothing. -/
theorem on_update (change : Store → Except StoreError Store) (store : Store) :
    Edit.on (update change) store =
      match change store with
      | .ok next => (.ok (), next)
      | .error e => (.error (.store e), store) := by
  unfold update
  rw [on_get_bind, on_bind, on_lift]
  cases change store <;> rfl

/-- What is made of the outcome of an action does not change the store. -/
theorem on_answer (action : Action α) (answer : α → β) (store : Store) :
    Edit.on (action >>= fun a => pure (answer a)) store =
      ((Edit.on action store).1.map answer, (Edit.on action store).2) := by
  rw [on_bind]
  rcases Edit.on action store with ⟨outcome, next⟩
  cases outcome <;> rfl

/-- What is seen of a store is the same after the action. -/
def Keeps (view : Store → σ) (action : Action α) (store : Store) : Prop :=
  view (Edit.on action store).2 = view store

namespace Keeps

variable {view : Store → σ} {store : Store}

/-- Returning a value keeps what is seen. -/
theorem pure (a : α) : Keeps view (pure a) store := rfl

/-- A result keeps what is seen. -/
theorem lift {ε : Type} (wrap : ε → ModelError) (result : Except ε α) :
    Keeps view (lift wrap result) store := by
  rw [Keeps, on_lift]

/-- A change that is not seen keeps what is seen. -/
theorem modify {f : Store → Store} (h : view (f store) = view store) :
    Keeps view (modify f : Action PUnit) store := h

/-- A store that looks the same keeps what is seen. -/
theorem set {next : Store} (h : view next = view store) :
    Keeps view (set next : Action PUnit) store := h

/-- An action on what it reads keeps what is seen if the one it becomes does. -/
theorem get_bind {f : Store → Action α} (h : Keeps view (f store) store) :
    Keeps view (get >>= f) store := h

/-- Two actions after each other keep what is seen if both do. -/
theorem bind {action : Action α} {f : α → Action β} (haction : Keeps view action store)
    (hf : ∀ a next, Keeps view (f a) next) : Keeps view (action >>= f) store := by
  unfold Keeps at haction ⊢
  rw [on_bind]
  rcases hon : Edit.on action store with ⟨outcome, next⟩
  rw [hon] at haction
  cases outcome with
  | ok a => exact (hf a next).trans haction
  | error e => exact haction

end Keeps

end Action

/-- After a call the store is as the called function leaves it. -/
theorem Store.next_call (store : Store) (m : Model) (call : Model.Call) :
    store.next (.call m call) =
      match call with
      | .createIndex => (Edit.on m.createIndex store).2
      | .dropIndex => (Edit.on m.dropIndex store).2
      | .save id doc => (Edit.on (m.save id doc) store).2
      | .fetch id => (Edit.on (m.fetch id) store).2
      | .remove id => (Edit.on (m.remove id) store).2
      | .execute search => (Edit.on (m.execute search) store).2 := by
  cases call <;> exact congrArg Prod.snd (Action.on_answer _ _ _)

/-! ## What calls on documents leave alone -/

namespace Model

open DocumentSchema.Action

/-- What is seen of a store does not depend on its documents and its log. -/
def OfIndexes {σ : Type} (view : Store → σ) : Prop :=
  ∀ store documents searches, view { store with documents, searches } = view store

variable {σ : Type} {view : Store → σ}

/-- Saving a document is not seen in the indexes. -/
theorem save_keeps (hview : OfIndexes view) (m : Model) (id : String) (doc : Document)
    (store : Store) : (m.save id doc).Keeps view store := by
  unfold save
  dsimp only
  split
  · refine Keeps.bind (Keeps.lift _ _) ?_
    intro fields next
    split
    · exact Keeps.modify (hview next _ _)
    · exact Keeps.modify (hview next _ _)
  · refine Keeps.bind (Keeps.lift _ _) ?_
    intro json next
    exact Keeps.modify (hview next _ _)

/-- Nothing changes when a document is fetched. -/
theorem fetch_keeps (m : Model) (id : String) (store : Store) :
    (m.fetch id).Keeps view store := by
  unfold fetch
  dsimp only
  split
  · refine Keeps.get_bind (Keeps.bind (Keeps.lift _ _) ?_)
    intro found next
    cases found with
    | none => exact Keeps.pure _
    | some fields => exact Keeps.bind (Keeps.lift _ _) fun doc next => Keeps.pure _
  · refine Keeps.get_bind (Keeps.bind (Keeps.lift _ _) ?_)
    intro found next
    cases found with
    | none => exact Keeps.pure _
    | some json => exact Keeps.bind (Keeps.lift _ _) fun doc next => Keeps.pure _

/-- Removing a document is not seen in the indexes. -/
theorem remove_keeps (hview : OfIndexes view) (m : Model) (id : String) (store : Store) :
    (m.remove id).Keeps view store := by
  refine Keeps.get_bind (Keeps.bind (Keeps.modify (hview store _ _)) ?_)
  intro _ next
  exact Keeps.pure _

/-- A search is not seen in the indexes. -/
theorem execute_keeps (hview : OfIndexes view) (m : Model) (search : Query.Search)
    (store : Store) : (m.execute search).Keeps view store := by
  refine Keeps.bind (Keeps.lift _ _) ?_
  intro request store
  refine Keeps.get_bind (Keeps.bind (Keeps.set (hview store _ _)) ?_)
  intro _ next
  refine Keeps.bind (Keeps.lift _ _) ?_
  intro reply next
  refine Keeps.bind (Keeps.lift _ _) ?_
  intro documents next
  exact Keeps.pure _

end Model

end DocumentSchema
