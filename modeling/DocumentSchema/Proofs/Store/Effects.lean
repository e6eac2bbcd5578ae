import DocumentSchema.Proofs.Store.Fingerprints

/-!
# What calls answer and change

The answer of a call and the store after it, one equation for each call on documents (`save_on`,
`fetch_on`, `remove_on`, `execute_on`) beside those for indexes. Together they say that a call
changes one document under the keys of its model, the index of its model with the note on it, or
the log, and nothing else (`Model.changes_next`); what a call leaves alone follows from that, and
that a store which only models use stays tidy (`Store.Tidy.next`).
-/

set_option autoImplicit false

namespace DocumentSchema

open Query (Edit)

open Query.Edit (on_get_bind on_bind)

/-- Whether a store keeps nothing for the document: a hash without fields. -/
def Stored.isBlank : Stored → Bool
  | .hash fields => fields.isEmpty
  | .tree _ => false

/-- What a store keeps of the document. -/
def Stored.kept? (stored : Stored) : Option Stored := if stored.isBlank then none else some stored

/-- Puts an encoded document at its key; what is there gives way, even to a blank. -/
def Store.put (store : Store) (key : String) (stored : Stored) : Store :=
  if stored.isBlank then store.delete key else store.write key stored

/-- Different identifiers have different keys. -/
theorem Settings.key_inj {s : Settings} {id other : String} :
    s.key id = s.key other ↔ id = other := by
  simp [key]

/-- A deleted key has no document, and every other key what it had. -/
theorem Store.get?_delete {store : Store} (hordered : store.documents.Ordered)
    (key other : String) : (store.delete key).documents.get? other =
      if key = other then none else store.documents.get? other :=
  hordered.distinct.get?_erase key other

/-- A key has what was put there unless nothing is kept, and every other key what it had. -/
theorem Store.get?_put {store : Store} (hordered : store.documents.Ordered) (key : String)
    (stored : Stored) (other : String) : (store.put key stored).documents.get? other =
      if key = other then stored.kept? else store.documents.get? other := by
  unfold put Stored.kept?
  split
  · exact get?_delete hordered key other
  · exact Entries.get?_insert _ _ _ _

namespace Model

/-- A document in the form that the model keeps it in. -/
def encode (m : Model) (doc : Document) : Except EncodeError Stored :=
  match m.settings.storage with
  | .hash => (m.schema.encodeHash doc).map .hash
  | .json => (m.schema.encodeTree doc).map .tree

/-- What is fetched from a key that holds something or nothing. -/
def fetched (m : Model) (key : String) : Option Stored → Except ModelError (Option Document)
  | none => .ok none
  | some stored =>
    match m.settings.storage, stored with
    | .hash, .tree _ => .error (.store (.holdsTree key))
    | .json, .hash _ => .error (.store (.holdsHash key))
    | _, stored => ((m.ofStored stored).mapError .decode).map some

/-- What is found in the reply to a search. -/
def found (m : Model) : Except StoreError Store.Reply → Except ModelError Results
  | .error e => .error (.store e)
  | .ok reply => ((m.ofEntries reply.documents).mapError .decode).map fun documents =>
      ⟨reply.total, documents⟩

/-! ## The calls on documents -/

/-- Saving a document puts what it is encoded as under its key, or is refused. -/
theorem save_on (m : Model) (id : String) (doc : Document) (store : Store) :
    Edit.on (m.save id doc) store =
      match m.encode doc with
      | .error e => (.error (.encode e), store)
      | .ok stored => (.ok (), store.put (m.settings.key id) stored) := by
  unfold save encode
  cases m.settings.storage with
  | hash =>
    dsimp only
    rw [on_bind, Action.on_lift]
    cases m.schema.encodeHash doc with
    | error e => rfl
    | ok fields => cases fields <;> rfl
  | json =>
    dsimp only
    rw [on_bind, Action.on_lift]
    cases m.schema.encodeTree doc <;> rfl

/-- Fetching a document reads what is under its key and changes nothing. -/
theorem fetch_on (m : Model) (id : String) (store : Store) :
    Edit.on (m.fetch id) store =
      (m.fetched (m.settings.key id) (store.documents.get? (m.settings.key id)), store) := by
  unfold fetch fetched
  dsimp only
  cases m.settings.storage with
  | hash =>
    dsimp only
    rw [on_get_bind, on_bind, Action.on_lift, Store.readHash]
    rcases store.documents.get? (m.settings.key id) with - | ⟨fields | json⟩
    · rfl
    · show Edit.on (Action.lift .decode (m.schema.decodeHash fields) >>= _) store = _
      rw [Action.on_answer, Action.on_lift]
      rfl
    · rfl
  | json =>
    dsimp only
    rw [on_get_bind, on_bind, Action.on_lift, Store.readTree]
    rcases store.documents.get? (m.settings.key id) with - | ⟨fields | json⟩
    · rfl
    · rfl
    · show Edit.on (Action.lift .decode (m.schema.decodeTree json) >>= _) store = _
      rw [Action.on_answer, Action.on_lift]
      rfl

/-- Removing a document deletes its key and tells whether there was one. -/
theorem remove_on (m : Model) (id : String) (store : Store) :
    Edit.on (m.remove id) store =
      (.ok (store.holds (m.settings.key id)), store.delete (m.settings.key id)) := rfl

/-- A search that is no request is refused before the store sees it. -/
theorem execute_on (m : Model) (search : Query.Search) (store : Store) :
    Edit.on (m.execute search) store =
      match search.compile with
      | .error e => (.error (.query e), store)
      | .ok request =>
        (m.found (store.reply (request.arguments m.indexName)),
          store.logged (request.arguments m.indexName)) := by
  unfold execute
  rw [on_bind, Action.on_lift]
  cases search.compile with
  | error e => rfl
  | ok request =>
    dsimp only
    show Edit.on (Action.lift .store (store.reply (request.arguments m.indexName)) >>= fun reply =>
      Action.lift .decode (m.ofEntries reply.documents) >>= fun documents =>
        pure (Results.mk reply.total documents)) (store.logged (request.arguments m.indexName)) = _
    rw [on_bind, Action.on_lift]
    cases store.reply (request.arguments m.indexName) with
    | error e => rfl
    | ok reply =>
      show Edit.on (Action.lift .decode (m.ofEntries reply.documents) >>= _) _ = _
      rw [Action.on_answer, Action.on_lift]
      rfl

/-! ## What a call changes -/

/-- The identifier that a call is about. -/
def Call.id? : Call → Option String
  | .save id _ => some id
  | .fetch id => some id
  | .remove id => some id
  | _ => none

/-- What a call of a model may make of a store. -/
inductive Changes (m : Model) (call : Call) (store : Store) : Store → Prop where
  | none : Changes m call store store
  | written (id : String) (stored : Stored) (hid : call.id? = some id) :
      Changes m call store (store.write (m.settings.key id) stored)
  | deleted (id : String) (hid : call.id? = some id) :
      Changes m call store (store.delete (m.settings.key id))
  | indexed : Changes m call store (store.withIndex m)
  | unindexed : Changes m call store (store.withoutIndex m)
  | logged (arguments : List Bytes) : Changes m call store (store.logged arguments)

/-- In a store that is in step a call changes nothing but what belongs to its model. -/
theorem changes_next {models : List Model} {store : Store} (h : store.InStep models) (m : Model)
    (call : Call) : m.Changes call store (store.next (.call m call)) := by
  rw [Store.next_call]
  cases call with
  | createIndex =>
    dsimp only
    rw [h.createIndex_eq m]
    split
    · exact Changes.none
    · exact Changes.indexed
  | dropIndex =>
    dsimp only
    rw [m.dropIndex_on]
    split
    · exact Changes.unindexed
    · exact Changes.none
  | save id doc =>
    dsimp only
    rw [m.save_on]
    cases m.encode doc with
    | error e => exact Changes.none
    | ok stored =>
      dsimp only
      unfold Store.put
      split
      · exact Changes.deleted id rfl
      · exact Changes.written id stored rfl
  | fetch id =>
    dsimp only
    rw [m.fetch_on]
    exact Changes.none
  | remove id => exact Changes.deleted id rfl
  | execute search =>
    dsimp only
    rw [m.execute_on]
    cases search.compile with
    | error e => exact Changes.none
    | ok request => exact Changes.logged _

namespace Changes

variable {m : Model} {call : Call} {store next : Store}

/-- Documents stay in the order of their keys. -/
theorem documents_ordered (h : m.Changes call store next) (hordered : store.documents.Ordered) :
    next.documents.Ordered := by
  cases h with
  | written id stored => exact hordered.insert _ _
  | deleted id => exact hordered.erase _
  | _ => exact hordered

/-- A document at another key than that of the call stays. -/
theorem document_of_ne (h : m.Changes call store next) (hordered : store.documents.Ordered)
    {key : String} (hkey : ∀ id, call.id? = some id → m.settings.key id ≠ key) :
    next.documents.get? key = store.documents.get? key := by
  cases h with
  | written id stored hid => exact Entries.get?_insert_of_ne _ _ (hkey id hid)
  | deleted id hid =>
    show (store.documents.erase _).get? key = _
    rw [hordered.distinct.get?_erase, if_neg (hkey id hid)]
  | _ => rfl

/-- The index of another name stays. -/
theorem index_of_ne (h : m.Changes call store next) (hordered : store.indexes.Ordered)
    {name : String} (hname : m.indexName ≠ name) :
    next.indexes.get? name = store.indexes.get? name := by
  cases h with
  | indexed => exact Entries.get?_insert_of_ne _ _ hname
  | unindexed =>
    show (store.indexes.erase _).get? name = _
    rw [hordered.distinct.get?_erase, if_neg hname]
  | _ => rfl

/-- The index of the model is as it was, or has the model's arguments. -/
theorem index_self (h : m.Changes call store next) (hordered : store.indexes.Ordered)
    {arguments : List String} (hget : next.indexes.get? m.indexName = some arguments) :
    store.indexes.get? m.indexName = some arguments ∨
      arguments = m.indexDefinition.arguments := by
  cases h with
  | indexed =>
    have hself : (store.withIndex m).indexes.get? m.indexName = _ := Entries.get?_insert_self _ _ _
    rw [hself] at hget
    exact Or.inr (Option.some.inj hget).symm
  | unindexed =>
    have hself : (store.indexes.erase m.indexName).get? m.indexName = some arguments := hget
    rw [hordered.distinct.get?_erase, if_pos rfl] at hself
    cases hself
  | _ => exact Or.inl hget

end Changes

end Model

/-! ## Stores that only models use -/

/-- Indexes stand under their own names and are those of the models, with notes; documents are in
the order of their keys. -/
structure Store.Tidy (models : List Model) (store : Store) : Prop where
  inStep : store.InStep models
  ordered : store.documents.Ordered
  named : ∀ name arguments, store.indexes.get? name = some arguments →
    arguments.head? = some name

namespace Store.Tidy

variable {models : List Model} {store : Store}

/-- An empty store is tidy. -/
theorem empty (models : List Model) : Tidy models {} where
  inStep := InStep.empty models
  ordered := Entries.Ordered.nil
  named := by
    intro name arguments h
    cases h

/-- A store stays tidy under the calls of its models. -/
theorem next (h : store.Tidy models) {m : Model} (hm : m ∈ models) (call : Model.Call) :
    (store.next (.call m call)).Tidy models := by
  have hchanges := Model.changes_next h.inStep m call
  have hstep : (Event.call m call).By models := hm
  refine ⟨h.inStep.next hstep, hchanges.documents_ordered h.ordered, ?_⟩
  intro name arguments hget
  by_cases hname : m.indexName = name
  · subst hname
    rcases hchanges.index_self h.inStep.indexes_ordered hget with hbefore | rfl
    · exact h.named _ _ hbefore
    · exact m.head?_arguments
  · rw [hchanges.index_of_ne h.inStep.indexes_ordered hname] at hget
    exact h.named name arguments hget

end Store.Tidy

end DocumentSchema
