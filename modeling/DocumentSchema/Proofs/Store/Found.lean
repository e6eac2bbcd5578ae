import DocumentSchema.Proofs.Outcome
import DocumentSchema.Proofs.Store.Coverage
import DocumentSchema.Proofs.Store.Effects

/-!
# Found and fetched

A search finds documents by scanning, a fetch goes to one key. The identifiers that a model makes of
the keys found lead back to these keys, and the documents there are of the form that the model reads,
so what it finds it also fetches (`Model.found_fetched`). This holds in every state that a store can
get into by whatever commands (`Store.Reached`), of models or others, for the index of the model as
the model creates it.
-/

set_option autoImplicit false

namespace DocumentSchema

open Query (Edit)

open Outcome (bind_eq_ok)

open Store (isKeyword startOf treesOf)

/-! ## States of a store -/

namespace Store

/-- A command to a store. -/
inductive Command where
  | write (key : String) (stored : Stored)
  | delete (key : String)
  | createIndex (arguments : List String)
  | dropIndex (name : String)
  | setNote (key text : String)
  | deleteNote (key : String)
  | search (arguments : List Bytes)
  | clear

/-- The store after a change, or as it was if the change is refused. -/
def orElse (store : Store) : Except StoreError Store → Store
  | .ok next => next
  | .error _ => store

/-- The store after a command, which changes nothing if it is refused. -/
def after (store : Store) : Command → Store
  | .write key stored => store.write key stored
  | .delete key => store.delete key
  | .createIndex arguments => store.orElse (store.createIndex arguments)
  | .dropIndex name => store.orElse (store.dropIndex name)
  | .setNote key text => store.setNote key text
  | .deleteNote key => store.deleteNote key
  | .search arguments => (store.search arguments).2
  | .clear => store.clear

/-- The states that commands lead to. -/
inductive Reached : Store → Prop
  | empty : Reached {}
  | after {store : Store} (h : Reached store) (command : Command) : Reached (store.after command)

namespace Reached

variable {store next : Store}

/-- Commands lead from reached states to reached states. -/
theorem afterAll (h : store.Reached) (commands : List Command) :
    (commands.foldl Store.after store).Reached := by
  induction commands generalizing store with
  | nil => exact h
  | cons command rest ih => exact ih (h.after command)

/-- Creating an index leads to a reached state. -/
theorem createIndex (h : store.Reached) {arguments : List String}
    (hcreate : store.createIndex arguments = .ok next) : next.Reached := by
  have hafter := h.after (.createIndex arguments)
  rwa [Store.after, hcreate] at hafter

/-- Dropping an index leads to a reached state. -/
theorem dropIndex (h : store.Reached) {name : String} (hdrop : store.dropIndex name = .ok next) :
    next.Reached := by
  have hafter := h.after (.dropIndex name)
  rwa [Store.after, hdrop] at hafter

/-- A call of a model is some commands to the store. -/
theorem call (h : store.Reached) (m : Model) (call : Model.Call) :
    (store.next (.call m call)).Reached := by
  rw [Store.next_call]
  cases call with
  | createIndex =>
    dsimp only
    rw [m.createIndex_on]
    split
    · exact h
    · split
      · exact h
      · rename_i dropped hdropped
        -- an outdated index is dropped before the new one is made
        have hreached : dropped.Reached := by
          split at hdropped
          · exact h.dropIndex hdropped
          · exact Except.ok.inj hdropped ▸ h
        split
        · exact hreached
        · rename_i created hcreated
          exact (hreached.createIndex hcreated).after (.setNote _ _)
  | dropIndex =>
    dsimp only
    rw [m.dropIndex_on]
    split
    · rename_i hthere
      have hdrop : store.dropIndex m.indexName =
          .ok { store with indexes := store.indexes.erase m.indexName } := by
        rw [Store.dropIndex, if_pos hthere]
      exact (h.dropIndex hdrop).after (.deleteNote m.fingerprintKey)
    · exact h
  | save id doc =>
    dsimp only
    rw [m.save_on]
    cases m.encode doc with
    | error e => exact h
    | ok stored =>
      dsimp only
      unfold Store.put
      -- a blank hash is stored by deleting what was there
      split
      · exact h.after (.delete _)
      · exact h.after (.write _ _)
  | fetch id =>
    dsimp only
    rw [m.fetch_on]
    exact h
  | remove id => exact h.after (.delete _)
  | execute search =>
    dsimp only
    rw [m.execute_on]
    cases search.compile with
    | error e => exact h
    | ok request => exact h.after (.search _)

/-- An index is created beside the documents, or refused. -/
theorem documents_createIndex (store : Store) (arguments : List String) :
    (store.orElse (store.createIndex arguments)).documents = store.documents := by
  unfold Store.createIndex
  split
  · rfl
  · split <;> rfl

/-- Dropping an index leaves the documents. -/
theorem documents_dropIndex (store : Store) (name : String) :
    (store.orElse (store.dropIndex name)).documents = store.documents := by
  unfold Store.dropIndex
  split <;> rfl

/-- The documents of a reached state are in the order of their keys. -/
theorem documents_ordered (h : store.Reached) : store.documents.Ordered := by
  induction h with
  | empty => exact Entries.Ordered.nil
  | @after store _ command ih =>
    cases command with
    | write key stored => exact ih.insert _ _
    | delete key => exact ih.erase _
    | createIndex arguments =>
      show (store.orElse (store.createIndex arguments)).documents.Ordered
      rw [documents_createIndex]
      exact ih
    | dropIndex name =>
      show (store.orElse (store.dropIndex name)).documents.Ordered
      rw [documents_dropIndex]
      exact ih
    | clear => exact Entries.Ordered.nil
    | _ => exact ih

end Reached

/-! ## Replies -/

/-- A page is part of the whole, in its order. -/
theorem onPage_sublist {α : Type} (entries : List α) (page : Option Query.Page) :
    (onPage entries page).Sublist entries := by
  cases page with
  | none => exact List.Sublist.refl _
  | some page => exact (List.take_sublist _ _).trans (List.drop_sublist _ _)

/-- A reply is cut from all that the index covers. -/
theorem reply_eq_ok {store : Store} {name : String} {index : List String}
    (hindex : store.indexes.get? name = some index) {arguments : List Bytes}
    (hname : arguments.head? = some (utf8 name)) {reply : Reply}
    (h : store.reply arguments = .ok reply) :
    reply.total = (store.matching index).length ∧
      reply.documents.Sublist (store.matching index) := by
  unfold Store.reply at h
  rw [hname, Option.bind_some, textOf?_utf8] at h
  dsimp only at h
  rw [hindex] at h
  obtain ⟨page, _, hreply⟩ := bind_eq_ok.1 h
  obtain rfl := Except.ok.inj hreply
  exact ⟨rfl, onPage_sublist _ _⟩

end Store

/-! ## From keys to identifiers and back -/

namespace Model

variable {m : Model}

/-- The identifier that is made of a key leads back to it. -/
theorem key_idOfKey (m : Model) {key : String} (h : m.settings.keyStart.toList <+: key.toList) :
    m.settings.key (m.idOfKey key) = key := by
  obtain ⟨rest, hrest⟩ := h
  unfold idOfKey
  rw [if_pos (List.isPrefixOf_iff_prefix.2 ⟨rest, hrest⟩), ← hrest, List.drop_left,
    ← String.toList_inj, Settings.key, String.toList_append, String.toList_ofList, hrest]

/-- The documents found are read one by one. Their identifiers lead back to the keys. -/
theorem ofEntries_eq_ok {entries : List (String × Stored)} {documents : List (String × Document)}
    (hkeys : ∀ e ∈ entries, m.settings.keyStart.toList <+: e.1.toList)
    (h : m.ofEntries entries = .ok documents) :
    (documents.map fun d => m.settings.key d.1) = entries.map Prod.fst ∧
      ∀ d ∈ documents, ∃ stored, (m.settings.key d.1, stored) ∈ entries ∧
        m.ofStored stored = .ok d.2 := by
  induction entries generalizing documents with
  | nil =>
    obtain rfl := Except.ok.inj h
    exact ⟨rfl, fun d hd => absurd hd List.not_mem_nil⟩
  | cons e rest ih =>
    obtain ⟨hkey, hrest⟩ := List.forall_mem_cons.1 hkeys
    obtain ⟨doc, hdoc, h⟩ := bind_eq_ok.1 h
    obtain ⟨docs, hdocs, h⟩ := bind_eq_ok.1 h
    obtain rfl := Except.ok.inj h
    obtain ⟨hsame, hread⟩ := ih hrest hdocs
    have hback := m.key_idOfKey hkey
    constructor
    · rw [List.map_cons, List.map_cons, hsame, hback]
    · rw [List.forall_mem_cons]
      constructor
      · rw [hback]
        exact ⟨e.2, List.mem_cons_self, hdoc⟩
      · intro d hd
        obtain ⟨stored, hmem, hstored⟩ := hread d hd
        exact ⟨stored, List.mem_cons_of_mem _ hmem, hstored⟩

/-- A document of the form of the settings is fetched as it is read. -/
theorem fetched_of_isTree {stored : Stored} (h : stored.isTree = m.settings.storage.isTrees)
    (key : String) :
    m.fetched key (some stored) = ((m.ofStored stored).mapError .decode).map some := by
  unfold fetched
  cases hstorage : m.settings.storage <;> cases stored <;>
    first
    | rfl
    | (rw [hstorage] at h; cases h)

/-- The documents that an index of the model covers have the model's form and keys. -/
theorem matching_of_arguments {store : Store} (hdocuments : store.documents.Ordered)
    (hform : isKeyword "ON" m.indexName = false) (hstart : isKeyword "PREFIX" m.indexName = false)
    {e : String × Stored} (he : e ∈ store.matching m.indexDefinition.arguments) :
    store.documents.get? e.1 = some e.2 ∧ m.settings.keyStart.toList <+: e.1.toList ∧
      e.2.isTree = m.settings.storage.isTrees := by
  obtain ⟨hget, hprefix, htrees⟩ := (Store.mem_matching_iff hdocuments).1 he
  have hread : treesOf m.indexDefinition.arguments = m.settings.storage.isTrees := by
    refine IndexDefinition.treesOf_arguments.2 ?_
    intro hnamed
    exact absurd (hform.symm.trans hnamed) (by decide)
  refine ⟨hget, ?_, htrees.trans hread⟩
  by_cases hempty : m.settings.keyStart = ""
  · rw [hempty]
    exact List.nil_prefix
  · rwa [IndexDefinition.startOf_of_ne_empty hstart hempty] at hprefix

/-- A search that succeeds reads the reply of the store. -/
theorem execute_eq_ok {store next : Store} {search : Query.Search} {results : Results}
    (h : Edit.on (m.execute search) store = (.ok results, next)) :
    ∃ request reply, search.compile = .ok request ∧
      store.reply (request.arguments m.indexName) = .ok reply ∧
      m.ofEntries reply.documents = .ok results.documents ∧ results.total = reply.total ∧
      next = store.logged (request.arguments m.indexName) := by
  rw [m.execute_on] at h
  cases hcompile : search.compile with
  | error e =>
    rw [hcompile] at h
    cases (Prod.mk.inj h).1
  | ok request =>
    rw [hcompile] at h
    obtain ⟨hfound, rfl⟩ := Prod.mk.inj h
    cases hreply : store.reply (request.arguments m.indexName) with
    | error e =>
      rw [hreply] at hfound
      cases hfound
    | ok reply =>
      rw [hreply] at hfound
      cases hdocuments : m.ofEntries reply.documents with
      | error e =>
        rw [found, hdocuments] at hfound
        cases hfound
      | ok documents =>
        rw [found, hdocuments] at hfound
        obtain rfl := Except.ok.inj hfound
        exact ⟨request, reply, rfl, hreply, hdocuments, rfl, rfl⟩

/-- In every state of a store that has the index of a model as the model creates it, under a name
that is no keyword, what a successful search of the model gives are different identifiers, in
ascending order of their keys and no more than there are in all, and the model fetches each of them
with the document that was found. -/
theorem found_fetched {store next : Store} {search : Query.Search} {results : Results}
    (hreached : store.Reached)
    (hindex : store.indexes.get? m.indexName = some m.indexDefinition.arguments)
    (hform : isKeyword "ON" m.indexName = false) (hstart : isKeyword "PREFIX" m.indexName = false)
    (hexecute : Edit.on (m.execute search) store = (.ok results, next)) :
    (results.documents.map Prod.fst).Nodup ∧
      (results.documents.map fun d => m.settings.key d.1).Pairwise (· < ·) ∧
      results.documents.length ≤ results.total ∧
      ∀ d ∈ results.documents, Edit.on (m.fetch d.1) next = (.ok (some d.2), next) := by
  have hordered := hreached.documents_ordered
  obtain ⟨request, reply, _, hreply, hdocuments, htotal, rfl⟩ := execute_eq_ok hexecute
  obtain ⟨hcount, hsublist⟩ := Store.reply_eq_ok hindex rfl hreply
  have hcovered : ∀ e ∈ reply.documents, store.documents.get? e.1 = some e.2 ∧
      m.settings.keyStart.toList <+: e.1.toList ∧ e.2.isTree = m.settings.storage.isTrees :=
    fun e he => matching_of_arguments hordered hform hstart (hsublist.subset he)
  obtain ⟨hkeys, hread⟩ := ofEntries_eq_ok (fun e he => (hcovered e he).2.1) hdocuments
  have hascending : (results.documents.map fun d => m.settings.key d.1).Pairwise (· < ·) := by
    rw [hkeys]
    exact Entries.ordered_iff_keys.1 ((hordered.filter _).sublist hsublist)
  refine ⟨?_, hascending, ?_, ?_⟩
  · have hnodup : (results.documents.map fun d => m.settings.key d.1).Nodup := by
      refine List.Pairwise.imp ?_ hascending
      rintro key _ hlt rfl
      exact String.lt_irrefl key hlt
    rw [← Function.comp_def, ← List.map_map] at hnodup
    exact List.Nodup.of_map _ hnodup
  · have hlength := congrArg List.length hkeys
    rw [List.length_map, List.length_map] at hlength
    rw [hlength, htotal, hcount]
    exact hsublist.length_le
  · intro d hd
    obtain ⟨stored, hmem, hstored⟩ := hread d hd
    obtain ⟨hget, _, htrees⟩ := hcovered _ hmem
    have hthere : (store.logged (request.arguments m.indexName)).documents.get?
        (m.settings.key d.1) = some stored := hget
    rw [m.fetch_on, hthere, fetched_of_isTree htrees, hstored]
    rfl

/-! ### Two extensions, one on a page -/

/-- Extensions in hashes, one on a page. -/
def extensionModel : Model where
  name := "extension"
  schema := phoneSchema
  settings := { storage := .hash, keyStart := "extension:", pageSize := 1 }

/-- A store with the index of the model and documents of several models. -/
def extensionStore : Store :=
  ([.createIndex extensionModel.indexDefinition.arguments,
    .write "extension:7" (.hash [("prefix", "07")]), .write "extension:5" (.hash [("prefix", "05")]),
    .write "extension:6" (.tree .null), .write "phone:1" (.hash [("prefix", "049")])] :
      List Store.Command).foldl Store.after {}

/-- Commands lead to the store of extensions. -/
theorem extensionStore_reached : extensionStore.Reached := Store.Reached.empty.afterAll _

/-- The store of extensions has the index of its model. -/
theorem index_extensions : extensionStore.indexes.get? extensionModel.indexName =
    some extensionModel.indexDefinition.arguments := rfl

/-- The request for the first page of all extensions. -/
def extensionRequest : Query.Request :=
  { query := "*", dialect := none, parameters := [], sort := none, page := some ⟨0, 1⟩ }

/-- Two documents are extensions of the index. -/
theorem matching_extensions :
    extensionStore.matching extensionModel.indexDefinition.arguments =
      [("extension:5", .hash [("prefix", "05")]), ("extension:7", .hash [("prefix", "07")])] := by
  have hstart : startOf extensionModel.indexDefinition.arguments = "extension:" := by
    decide +kernel
  have htrees : treesOf extensionModel.indexDefinition.arguments = false := by decide +kernel
  rw [Store.matching_eq, hstart, htrees]
  rfl

/-- A search for extensions counts two of them and has one on its page. -/
theorem execute_extensions :
    Edit.on (extensionModel.execute extensionModel.search) extensionStore =
      (.ok ⟨2, [("5", [("prefix", .string "05")])]⟩,
        extensionStore.logged (extensionRequest.arguments extensionModel.indexName)) := by
  have hcompile : extensionModel.search.compile = .ok extensionRequest := by decide
  have hpage : Store.pageOf (extensionRequest.arguments extensionModel.indexName) =
      .ok (some ⟨0, 1⟩) := by decide +kernel
  have hsearch := congrArg Prod.fst (Store.search_of_page index_extensions hpage)
  rw [matching_extensions] at hsearch
  have hreply : extensionStore.reply (extensionRequest.arguments extensionModel.indexName) =
      .ok ⟨2, [("extension:5", .hash [("prefix", "05")])]⟩ := hsearch
  rw [execute_on, hcompile]
  dsimp only
  rw [hreply]
  rfl

/-- The model finds the first of its two documents, and fetches it. -/
theorem found_fetched_extensions :
    ∃ next, Edit.on (extensionModel.execute extensionModel.search) extensionStore =
        (.ok ⟨2, [("5", [("prefix", .string "05")])]⟩, next) ∧
      Edit.on (extensionModel.fetch "5") next =
        (.ok (some [("prefix", .string "05")]), next) := by
  have hform : isKeyword "ON" extensionModel.indexName = false := by decide +kernel
  have hstart : isKeyword "PREFIX" extensionModel.indexName = false := by decide +kernel
  obtain ⟨_, _, _, hfetch⟩ :=
    found_fetched extensionStore_reached index_extensions hform hstart execute_extensions
  exact ⟨_, execute_extensions, hfetch ("5", [("prefix", .string "05")]) List.mem_cons_self⟩

end Model

end DocumentSchema
