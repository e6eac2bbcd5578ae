import DocumentSchema.Proofs.Store.Coverage
import DocumentSchema.Proofs.Store.Effects

/-!
# Models that share a store

Two models on one store do not notice each other if neither key start begins with the other and
their indexes have different names. To a model a store is the documents under its own keys and the
index of its own name; stores that agree on these are alike (`Model.Alike`). On alike stores the
model gets the same answers and leaves the stores alike (`Model.Alike.perform`), and the calls of
the other model leave a store as alike as it was. So with and without the calls of the other model
all answers are the same (`Model.answers_apart`).
-/

set_option autoImplicit false

namespace DocumentSchema

open Query (Edit)

open Store (isKeyword startOf treesOf covering)

/-! ## Documents under one key start -/

/-- What is covered depends on the documents under the key start only. -/
theorem covering_congr {documents others : Entries Stored} (hdocuments : documents.Ordered)
    (hothers : others.Ordered) {start : String}
    (hsame : ∀ key, start.toList <+: key.toList → documents.get? key = others.get? key)
    (trees : Bool) : covering documents start trees = covering others start trees := by
  unfold covering
  refine (hdocuments.filter _).ext (hothers.filter _) ?_
  intro key
  rw [hdocuments.distinct.get?_filter, hothers.distinct.get?_filter]
  by_cases hkey : start.toList <+: key.toList
  · rw [hsame key hkey]
  · have hnot : start.toList.isPrefixOf key.toList = false := by
      rw [← Bool.not_eq_true, List.isPrefixOf_iff_prefix]
      exact hkey
    simp [hnot]

namespace Model

/-- The keys of a model are those that begin with its key start. -/
theorem exists_key_iff (m : Model) (key : String) :
    (∃ id, m.settings.key id = key) ↔ m.settings.keyStart.toList <+: key.toList := by
  constructor
  · rintro ⟨id, rfl⟩
    rw [Settings.key, String.toList_append]
    exact List.prefix_append _ _
  · rintro ⟨rest, hrest⟩
    refine ⟨String.ofList rest, ?_⟩
    rw [← String.toList_inj, Settings.key, String.toList_append, String.toList_ofList, hrest]

/-! ## Two models -/

/-- Two models have no key and no index in common. -/
structure Apart (a b : Model) : Prop where
  start : ¬a.settings.keyStart.toList <+: b.settings.keyStart.toList
  start_other : ¬b.settings.keyStart.toList <+: a.settings.keyStart.toList
  index : a.indexName ≠ b.indexName

variable {a b : Model} {s t : Store}

/-- Models apart have no key in common. -/
theorem Apart.key_ne (h : a.Apart b) (id other : String) :
    b.settings.key id ≠ a.settings.key other := by
  intro hsame
  have ha := (a.exists_key_iff _).1 ⟨other, rfl⟩
  have hb := (b.exists_key_iff _).1 ⟨id, hsame⟩
  rcases List.prefix_or_prefix_of_prefix ha hb with hbelow | hbelow
  · exact h.start hbelow
  · exact h.start_other hbelow

/-- A model apart from another has keys with a start. -/
theorem Apart.keyStart_ne (h : a.Apart b) : a.settings.keyStart ≠ "" := by
  intro hempty
  apply h.start
  rw [hempty]
  exact List.nil_prefix

/-- The index of the first model has its own arguments. -/
theorem Apart.own_index (h : a.Apart b) (hs : s.Tidy [a, b]) {arguments : List String}
    (hget : s.indexes.get? a.indexName = some arguments) :
    arguments = a.indexDefinition.arguments := by
  obtain ⟨m, hm, rfl⟩ := hs.inStep.owned _ _ hget
  have hname := hs.named _ _ hget
  rw [m.head?_arguments] at hname
  simp only [List.mem_cons, List.not_mem_nil, or_false] at hm
  rcases hm with rfl | rfl
  · rfl
  · exact absurd (Option.some.inj hname).symm h.index

/-- To the model the stores are the same. -/
structure Alike (m : Model) (s t : Store) : Prop where
  documents : ∀ id, s.documents.get? (m.settings.key id) = t.documents.get? (m.settings.key id)
  index : s.indexes.get? m.indexName = t.indexes.get? m.indexName

/-- The calls of the other model leave a store as alike as it was. -/
theorem Alike.next_other (h : a.Alike s t) (hapart : a.Apart b) (hs : s.Tidy [a, b])
    (call : Call) : a.Alike (s.next (.call b call)) t := by
  have hchanges := changes_next hs.inStep b call
  refine ⟨?_, ?_⟩
  · intro id
    rw [← h.documents id]
    exact hchanges.document_of_ne hs.ordered fun other _ => hapart.key_ne other id
  · rw [← h.index]
    exact hchanges.index_of_ne hs.inStep.indexes_ordered hapart.index.symm

/-! ## The calls of a model on alike stores -/

/-- An action gives the same answer on both stores and leaves them alike. -/
structure Agrees {α : Type} (m : Model) (action : Action α) (s t : Store) : Prop where
  answer : (Edit.on action s).1 = (Edit.on action t).1
  alike : m.Alike (Edit.on action s).2 (Edit.on action t).2

/-- Actions with one outcome that leave the stores alike agree. -/
theorem Agrees.of_on {α : Type} {m : Model} {action : Action α} {outcome : Except ModelError α}
    {s' t' : Store} (hs : Edit.on action s = (outcome, s')) (ht : Edit.on action t = (outcome, t'))
    (halike : m.Alike s' t') : m.Agrees action s t := by
  refine ⟨?_, ?_⟩
  · rw [hs, ht]
  · rw [hs, ht]
    exact halike

/-- Actions that agree do so with a function of their answers. -/
theorem Agrees.map {α β : Type} {m : Model} {action : Action α} (h : m.Agrees action s t)
    (f : α → β) : m.Agrees (action >>= fun x => pure (f x)) s t := by
  refine Agrees.of_on (Action.on_answer action f s) ?_ h.alike
  rw [Action.on_answer, h.answer]

namespace Alike

variable {m : Model} {models : List Model}

/-- Stores stay alike when one document is put into both. -/
theorem put (h : m.Alike s t) (hs : s.documents.Ordered) (ht : t.documents.Ordered) (id : String)
    (stored : Stored) :
    m.Alike (s.put (m.settings.key id) stored) (t.put (m.settings.key id) stored) := by
  have hindexes (store : Store) :
      (store.put (m.settings.key id) stored).indexes = store.indexes := by
    unfold Store.put
    split <;> rfl
  refine ⟨?_, ?_⟩
  · intro other
    rw [Store.get?_put hs, Store.get?_put ht, h.documents]
  · rw [hindexes, hindexes, h.index]

/-- Stores stay alike when one document is deleted from both. -/
theorem delete (h : m.Alike s t) (hs : s.documents.Ordered) (ht : t.documents.Ordered)
    (id : String) : m.Alike (s.delete (m.settings.key id)) (t.delete (m.settings.key id)) := by
  refine ⟨?_, h.index⟩
  intro other
  rw [Store.get?_delete hs, Store.get?_delete ht, h.documents]

/-- Stores stay alike when both get the index of the model. -/
theorem withIndex (h : m.Alike s t) : m.Alike (s.withIndex m) (t.withIndex m) := by
  refine ⟨h.documents, ?_⟩
  show (s.indexes.insert _ _).get? _ = (t.indexes.insert _ _).get? _
  rw [Entries.get?_insert_self, Entries.get?_insert_self]

/-- Stores stay alike when both lose the index of the model. -/
theorem withoutIndex (h : m.Alike s t) (hs : s.indexes.Ordered) (ht : t.indexes.Ordered) :
    m.Alike (s.withoutIndex m) (t.withoutIndex m) := by
  refine ⟨h.documents, ?_⟩
  show (s.indexes.erase _).get? _ = (t.indexes.erase _).get? _
  rw [hs.distinct.get?_erase, ht.distinct.get?_erase, if_pos rfl, if_pos rfl]

/-- Creating an index agrees on alike stores. -/
theorem createIndex (h : m.Alike s t) (hs : s.InStep models) (ht : t.InStep models) :
    m.Agrees m.createIndex s t := by
  have hons := hs.createIndex_eq m
  have hont := ht.createIndex_eq m
  rw [h.index] at hons
  split at hont
  · rename_i hsame
    rw [if_pos hsame] at hons
    exact Agrees.of_on hons hont h
  · rename_i hdiffers
    rw [if_neg hdiffers] at hons
    exact Agrees.of_on hons hont h.withIndex

/-- Dropping an index agrees on alike stores. -/
theorem dropIndex (h : m.Alike s t) (hs : s.InStep models) (ht : t.InStep models) :
    m.Agrees m.dropIndex s t := by
  have hons := m.dropIndex_on s
  have hont := m.dropIndex_on t
  rw [Entries.contains, h.index, ← Entries.contains] at hons
  split at hont
  · rename_i hthere
    rw [if_pos hthere] at hons
    exact Agrees.of_on hons hont (h.withoutIndex hs.indexes_ordered ht.indexes_ordered)
  · rename_i habsent
    rw [if_neg habsent] at hons
    exact Agrees.of_on hons hont h

/-- Saving a document agrees on alike stores. -/
theorem save (h : m.Alike s t) (hs : s.documents.Ordered) (ht : t.documents.Ordered) (id : String)
    (doc : Document) : m.Agrees (m.save id doc) s t := by
  have hons := m.save_on id doc s
  have hont := m.save_on id doc t
  cases hencode : m.encode doc with
  | error e =>
    rw [hencode] at hons hont
    exact Agrees.of_on hons hont h
  | ok stored =>
    rw [hencode] at hons hont
    exact Agrees.of_on hons hont (h.put hs ht id stored)

/-- Fetching a document agrees on alike stores. -/
theorem fetch (h : m.Alike s t) (id : String) : m.Agrees (m.fetch id) s t := by
  have hons := m.fetch_on id s
  rw [h.documents] at hons
  exact Agrees.of_on hons (m.fetch_on id t) h

/-- Removing a document agrees on alike stores. -/
theorem remove (h : m.Alike s t) (hs : s.documents.Ordered) (ht : t.documents.Ordered)
    (id : String) : m.Agrees (m.remove id) s t := by
  have hons := m.remove_on id s
  rw [Store.holds, Entries.contains, h.documents] at hons
  exact Agrees.of_on hons (m.remove_on id t) (h.delete hs ht id)

section Shared

variable (h : a.Alike s t) (hapart : a.Apart b) (hname : isKeyword "PREFIX" a.indexName = false)
  (hs : s.Tidy [a, b]) (ht : t.Tidy [a, b])

include h hapart hname hs ht

/-- Both stores give the same reply to a request on the model's own index. -/
theorem reply (request : Query.Request) :
    s.reply (request.arguments a.indexName) = t.reply (request.arguments a.indexName) := by
  have hhead : (request.arguments a.indexName).head? = some (utf8 a.indexName) := rfl
  unfold Store.reply
  rw [hhead, Option.bind_some, Store.textOf?_utf8]
  dsimp only
  rw [h.index]
  cases hget : t.indexes.get? a.indexName with
  | none => rfl
  | some arguments =>
    obtain rfl := hapart.own_index ht hget
    have hstart : startOf a.indexDefinition.arguments = a.settings.keyStart :=
      IndexDefinition.startOf_of_ne_empty hname hapart.keyStart_ne
    have hfound : s.matching a.indexDefinition.arguments =
        t.matching a.indexDefinition.arguments := by
      rw [Store.matching_eq, Store.matching_eq, hstart]
      refine covering_congr hs.ordered ht.ordered ?_ _
      intro key hkey
      obtain ⟨id, rfl⟩ := (a.exists_key_iff key).2 hkey
      exact h.documents id
    dsimp only
    rw [hfound]

/-- A search agrees on alike stores. -/
theorem execute (search : Query.Search) : a.Agrees (a.execute search) s t := by
  have hons := a.execute_on search s
  have hont := a.execute_on search t
  cases hcompile : search.compile with
  | error e =>
    rw [hcompile] at hons hont
    exact Agrees.of_on hons hont h
  | ok request =>
    rw [hcompile] at hons hont
    dsimp only at hons hont
    rw [h.reply hapart hname hs ht request] at hons
    exact Agrees.of_on hons hont ⟨h.documents, h.index⟩

/-- A call of a model gets the same answer on alike stores and leaves them alike. -/
theorem perform (call : Call) : a.Agrees (a.perform call) s t := by
  cases call with
  | createIndex => exact (h.createIndex hs.inStep ht.inStep).map Answer.created
  | dropIndex => exact (h.dropIndex hs.inStep ht.inStep).map fun _ => Answer.done
  | save id doc => exact (h.save hs.ordered ht.ordered id doc).map fun _ => Answer.done
  | fetch id => exact (h.fetch id).map Answer.fetched
  | remove id => exact (h.remove hs.ordered ht.ordered id).map Answer.removed
  | execute search => exact (h.execute hapart hname hs ht search).map Answer.found

end Shared

end Alike

/-! ## Runs of two models -/

/-- The answers that the first of two models gets, when each call is a turn of one of them. -/
def answers (a b : Model) (store : Store) : List (Call ⊕ Call) → List (Except ModelError Answer)
  | [] => []
  | .inl call :: turns =>
    (Edit.on (a.perform call) store).1 :: answers a b (store.next (.call a call)) turns
  | .inr call :: turns => answers a b (store.next (.call b call)) turns

/-- A model gets the same answers whether the other one takes its turns or not. -/
theorem Alike.answers (h : a.Alike s t) (hapart : a.Apart b)
    (hname : isKeyword "PREFIX" a.indexName = false) (hs : s.Tidy [a, b]) (ht : t.Tidy [a, b])
    (turns : List (Call ⊕ Call)) :
    a.answers b s turns = a.answers b t (turns.filter Sum.isLeft) := by
  have ha : a ∈ [a, b] := by simp
  have hb : b ∈ [a, b] := by simp
  induction turns generalizing s t with
  | nil => rfl
  | cons turn turns ih =>
    cases turn with
    | inl call =>
      obtain ⟨hanswer, halike⟩ := h.perform hapart hname hs ht call
      have hrest := ih halike (hs.next ha call) (ht.next ha call)
      exact congrArg₂ List.cons hanswer hrest
    | inr call => exact ih (h.next_other hapart hs call) (hs.next hb call) ht

/-- If two models on a store have neither keys nor an index in common, the answers to one of them
are the same with and without the calls of the other, in whatever order they come. The name of its
index must not be the keyword of key starts in any case, since a search would then read another key
start from the index; the keyword of forms as a name does no harm. -/
theorem answers_apart (hapart : a.Apart b) (hname : isKeyword "PREFIX" a.indexName = false)
    (turns : List (Call ⊕ Call)) :
    a.answers b {} turns = a.answers b {} (turns.filter Sum.isLeft) := by
  have halike : a.Alike {} {} := ⟨fun _ => rfl, rfl⟩
  exact halike.answers hapart hname (Store.Tidy.empty _) (Store.Tidy.empty _) turns

end Model

/-! ## A larder and a cellar -/

/-- A model of what is stored in a room of a house. -/
def storeroomModel (room : String) : Model where
  name := room
  schema := { fields := [("label", .ofKind (.string ',' false))], references := [],
              relations := [], warnings := [] }
  settings := { keyStart := room ++ ":" }

/-- Both rooms have a jar of the same number, and only one of them is emptied. -/
def storeroomTurns : List (Model.Call ⊕ Model.Call) :=
  [.inr .createIndex, .inl (.save "1" [("label", .string "plums")]),
    .inr (.save "1" [("label", .string "cider")]), .inr (.remove "1"), .inl (.fetch "1"),
    .inr .dropIndex]

/-- A larder gets its plums back whatever a cellar stores. -/
theorem Model.answers_apart_rooms :
    (storeroomModel "larder").Apart (storeroomModel "cellar") ∧
      isKeyword "PREFIX" (storeroomModel "larder").indexName = false ∧
      (storeroomModel "larder").answers (storeroomModel "cellar") {} storeroomTurns =
        [.ok .done, .ok (.fetched (some [("label", .string "plums")]))] := by
  have hapart : (storeroomModel "larder").Apart (storeroomModel "cellar") :=
    ⟨by decide, by decide, by decide⟩
  have hname : isKeyword "PREFIX" (storeroomModel "larder").indexName = false := by
    decide +kernel
  refine ⟨hapart, hname, ?_⟩
  rw [Model.answers_apart hapart hname storeroomTurns]
  rfl

end DocumentSchema
