import DocumentSchema.Proofs.Index.Arguments
import DocumentSchema.Proofs.Schema.Canonical
import DocumentSchema.Proofs.Store.Fingerprints

/-!
# What a search covers

A search reads the key start and the form of an index back from the arguments that created it, and
gives all documents under them. `Model.Legible` says when both are read back as the model's settings
have them: the name of the index is no keyword that leads the scan astray, and if there is no key
start, no field is taken for one. On a fresh store this is the exact condition for the searches on
an index to find the documents of the model whatever the store holds (`Model.search_covers_iff`).
-/

set_option autoImplicit false

namespace DocumentSchema

open Query (Edit)

namespace Store

/-! ## Names in requests -/

/-- A text is read from its bytes. -/
theorem textOf?_utf8 (s : String) : textOf? (utf8 s) = some s := by
  show String.fromUTF8? s.toUTF8 = some s
  unfold String.fromUTF8?
  rw [String.toUTF8_eq_toByteArray, dif_pos s.isValidUTF8]
  rfl

/-- Texts with the same bytes are the same. -/
theorem utf8_inj {s t : String} : utf8 s = utf8 t ↔ s = t := by
  refine ⟨fun h => ?_, congrArg utf8⟩
  have hread := congrArg textOf? h
  rw [textOf?_utf8, textOf?_utf8] at hread
  exact Option.some.inj hread

/-! ## Documents under a key start -/

/-- The documents of one form under a key start. -/
def covering (documents : Entries Stored) (start : String) (trees : Bool) :
    List (String × Stored) :=
  documents.filter fun e => start.toList.isPrefixOf e.1.toList && e.2.isTree = trees

/-- A document of a form. -/
def sample (trees : Bool) : Stored := if trees then .tree .null else .hash []

/-- The samples of trees are trees. -/
theorem isTree_sample (trees : Bool) : (sample trees).isTree = trees := by
  cases trees <;> rfl

/-- A document alone in a store is covered only under its own form and the start of its key. -/
theorem covering_sample {key start : String} {trees found : Bool} :
    covering [(key, sample trees)] start found = [(key, sample trees)] ↔
      start.toList <+: key.toList ∧ trees = found := by
  rw [covering, List.filter_eq_self, List.forall_mem_singleton, Bool.and_eq_true,
    decide_eq_true_eq, List.isPrefixOf_iff_prefix, isTree_sample]

/-- Different key starts or forms cover different documents of some store. -/
theorem covering_inj {start other : String} {trees others : Bool} :
    (∀ documents : Entries Stored, documents.Ordered →
      covering documents start trees = covering documents other others) ↔
      start = other ∧ trees = others := by
  constructor
  · intro h
    have halone (key : String) (form : Bool) :
        covering [(key, sample form)] start trees = covering [(key, sample form)] other others :=
      h _ (List.pairwise_singleton _ _)
    have hself : covering [(start, sample trees)] start trees = [(start, sample trees)] :=
      covering_sample.2 ⟨List.prefix_rfl, rfl⟩
    have hother : covering [(other, sample others)] other others = [(other, sample others)] :=
      covering_sample.2 ⟨List.prefix_rfl, rfl⟩
    rw [halone] at hself
    rw [← halone] at hother
    obtain ⟨hbelow, hform⟩ := covering_sample.1 hself
    obtain ⟨habove, _⟩ := covering_sample.1 hother
    exact ⟨String.toList_inj.1 (habove.eq_of_length_le hbelow.length_le), hform⟩
  · rintro ⟨rfl, rfl⟩ documents _
    rfl

/-! ## What is read back from the arguments of an index -/

/-- The key start that a search reads from the arguments of an index. -/
def startOf (index : List String) : String := (argumentAfter? index "PREFIX" 1).getD ""

/-- Whether a search reads from the arguments of an index that it is of trees. -/
def treesOf (index : List String) : Bool :=
  match argumentAfter? index "ON" 0 with
  | some form => isKeyword "JSON" form
  | none => false

/-- A search finds what the arguments of the index cover. -/
theorem matching_eq (store : Store) (index : List String) :
    store.matching index = covering store.documents (startOf index) (treesOf index) := rfl

/-- A document is found at its key if it has the form of the index and the key its start. -/
theorem mem_matching_iff {store : Store} {index : List String}
    (hdocuments : store.documents.Ordered) {key : String} {stored : Stored} :
    (key, stored) ∈ store.matching index ↔ store.documents.get? key = some stored ∧
      (startOf index).toList <+: key.toList ∧ stored.isTree = treesOf index := by
  rw [matching_eq, covering, List.mem_filter, Bool.and_eq_true, decide_eq_true_eq,
    List.isPrefixOf_iff_prefix]
  exact and_congr_left' ⟨hdocuments.distinct.get?_of_mem, Entries.mem_of_get?⟩

/-- Arguments that are not the keyword of a page are passed over. -/
theorem pageOf_append {front : List Bytes} (hfront : ∀ a ∈ front, a ≠ utf8 "LIMIT")
    (rest : List Bytes) : pageOf (front ++ rest) = pageOf rest := by
  have hnone : front.findIdx? (fun a => decide (a = utf8 "LIMIT")) = none := by
    rw [List.findIdx?_eq_none_iff]
    intro a ha
    exact decide_eq_false (hfront a ha)
  unfold pageOf
  rw [List.findIdx?_append, hnone, Option.none_or]
  cases rest.findIdx? fun a => decide (a = utf8 "LIMIT") with
  | none => rfl
  | some i =>
    have hshift (k : Nat) : (front ++ rest)[i + front.length + k]? = rest[i + k]? := by
      rw [List.getElem?_append_right (by omega)]
      congr 1
      omega
    simp only [Option.map_some, hshift]

/-- Without the keyword there is no page. -/
theorem pageOf_none {arguments : List Bytes} (h : ∀ a ∈ arguments, a ≠ utf8 "LIMIT") :
    pageOf arguments = .ok none := by
  have hempty := pageOf_append h []
  rw [List.append_nil] at hempty
  exact hempty

/-- A request with the name of an index gets the page that is read from it, of all that matches. -/
theorem search_of_page {store : Store} {name : String} {index : List String}
    (hindex : store.indexes.get? name = some index) {rest : List Bytes}
    {page : Option Query.Page} (hpage : pageOf (utf8 name :: rest) = .ok page) :
    store.search (utf8 name :: rest) =
      (.ok ⟨(store.matching index).length, onPage (store.matching index) page⟩,
        store.logged (utf8 name :: rest)) := by
  show (store.reply (utf8 name :: rest), _) = _
  unfold reply
  rw [List.head?_cons, Option.bind_some, textOf?_utf8]
  dsimp only
  rw [hindex]
  dsimp only
  rw [hpage]
  rfl

/-- A request with the name of an index and without the keyword of a page gets all that matches. -/
theorem search_all {store : Store} {name : String} {index : List String}
    (hindex : store.indexes.get? name = some index) {rest : List Bytes}
    (hlimit : utf8 "LIMIT" ∉ utf8 name :: rest) :
    (store.search (utf8 name :: rest)).1 =
      .ok ⟨(store.matching index).length, store.matching index⟩ := by
  have hpage : pageOf (utf8 name :: rest) = .ok none := by
    apply pageOf_none
    rintro a ha rfl
    exact hlimit ha
  rw [search_of_page hindex hpage]
  rfl

/-- A request on an index whose name is the keyword of a page is refused if nothing follows it. -/
theorem search_limit {store : Store} {index : List String}
    (hindex : store.indexes.get? "LIMIT" = some index) :
    (store.search [utf8 "LIMIT"]).1 = .error .incompleteLimit := by
  show store.reply [utf8 "LIMIT"] = _
  unfold reply
  rw [List.head?_cons, Option.bind_some, textOf?_utf8]
  dsimp only
  rw [hindex]
  rfl

end Store

open Store (isKeyword argumentAfter? startOf treesOf covering)

/-! ## What a model's arguments say -/

namespace Storage

/-- The name of a storage is not the keyword of the key start. -/
theorem silent_label (storage : Storage) : Silent storage.label := by
  cases storage <;> decide +kernel

/-- Whether the documents of a form are trees. -/
def isTrees (storage : Storage) : Bool := storage = .json

/-- The name of a storage is that of trees exactly for trees. -/
theorem isKeyword_label (storage : Storage) :
    isKeyword "JSON" storage.label = storage.isTrees := by
  cases storage <;> decide +kernel

end Storage

namespace IndexDefinition

variable {d : IndexDefinition}

/-- Without a keyword as the name of the index, the key start is looked for behind the form. -/
theorem startOf_pass (hname : isKeyword "PREFIX" d.name = false) :
    startOf d.arguments =
      startOf (keyArguments d.keyStart ++ "SCHEMA" :: d.fields.flatMap IndexField.arguments) := by
  have hon : isKeyword "PREFIX" "ON" = false := by decide +kernel
  rw [startOf, arguments, List.append_assoc, List.cons_append, argumentAfter?_pass hname,
    List.cons_append, argumentAfter?_pass hon, List.cons_append,
    argumentAfter?_pass d.storage.silent_label.2, List.nil_append]
  rfl

/-- A key start is read back, whatever the fields are. -/
theorem startOf_of_ne_empty (hname : isKeyword "PREFIX" d.name = false)
    (hstart : d.keyStart ≠ "") : startOf d.arguments = d.keyStart := by
  have hgiven : ¬d.keyStart.isEmpty = true := fun hempty => hstart (String.isEmpty_iff.1 hempty)
  rw [startOf_pass hname, keyArguments, if_neg hgiven, List.cons_append, startOf,
    argumentAfter?_keyword (isKeyword_self _)]
  rfl

/-- Without a keyword as the name of the index, its key start is read back unless it is empty and a
field is taken for it. -/
theorem startOf_arguments (hname : isKeyword "PREFIX" d.name = false)
    (hregular : ∀ f ∈ d.fields, Index.Regular f)
    (hpaths : d.fields.Pairwise fun _ g => g.path ≠ "") :
    startOf d.arguments = d.keyStart ↔ (d.keyStart = "" → Index.KeywordEnds d.fields) := by
  have hschema : isKeyword "PREFIX" "SCHEMA" = false := by decide +kernel
  by_cases hempty : d.keyStart = ""
  · rw [startOf_pass hname, hempty]
    show startOf ("SCHEMA" :: d.fields.flatMap IndexField.arguments) = "" ↔ _
    rw [startOf, argumentAfter?_pass hschema, Index.argumentAfter?_fields hregular hpaths]
    exact ⟨fun h _ => h, fun h => h rfl⟩
  · exact iff_of_true (startOf_of_ne_empty hname hempty) fun h => absurd h hempty

/-- With the keyword as the name of the index, the form is taken for its key start. -/
theorem startOf_arguments_named (hname : isKeyword "PREFIX" d.name = true) :
    startOf d.arguments = d.storage.label := by
  rw [startOf, arguments, List.append_assoc, List.cons_append, argumentAfter?_keyword hname]
  rfl

/-- The form is read back, except for trees if the name of the index is the keyword before it. -/
theorem treesOf_arguments :
    treesOf d.arguments = d.storage.isTrees ↔
      (isKeyword "ON" d.name = true → d.storage = .hash) := by
  have hform : isKeyword "JSON" "ON" = false := by decide +kernel
  rw [treesOf, arguments, List.append_assoc, List.cons_append]
  cases hname : isKeyword "ON" d.name with
  | true =>
    rw [argumentAfter?_keyword hname]
    show isKeyword "JSON" "ON" = _ ↔ _
    rw [hform]
    cases d.storage <;> simp [Storage.isTrees]
  | false =>
    rw [argumentAfter?_pass hname, List.cons_append, argumentAfter?_keyword (isKeyword_self _)]
    show isKeyword "JSON" d.storage.label = _ ↔ _
    simp [d.storage.isKeyword_label]

end IndexDefinition

/-! ## Searches on the index of a model -/

namespace Model

/-- The documents that a search on the index of a model is to find. -/
def covered (m : Model) (documents : Entries Stored) : List (String × Stored) :=
  covering documents m.settings.keyStart m.settings.storage.isTrees

/-- The settings of a model can be read back from the arguments of its index. -/
structure Legible (m : Model) : Prop where
  page : m.indexName ≠ "LIMIT"
  form : isKeyword "ON" m.indexName = true → m.settings.storage = .hash
  start : isKeyword "PREFIX" m.indexName = false → m.settings.keyStart = "" →
    Index.KeywordEnds m.indexDefinition.fields
  start_named : isKeyword "PREFIX" m.indexName = true →
    m.settings.keyStart = m.settings.storage.label

/-- With a key start and an index name that is no keyword, names of fields do no harm. -/
theorem Legible.of_keyStart {m : Model} (hstart : m.settings.keyStart ≠ "")
    (hpage : isKeyword "LIMIT" m.indexName = false) (hform : isKeyword "ON" m.indexName = false)
    (hname : isKeyword "PREFIX" m.indexName = false) : m.Legible where
  page := by
    intro hlimit
    rw [hlimit, isKeyword_self] at hpage
    cases hpage
  form := by
    intro hnamed
    rw [hform] at hnamed
    cases hnamed
  start := fun _ hempty => absurd hempty hstart
  start_named := by
    intro hnamed
    rw [hname] at hnamed
    cases hnamed

/-- On a store without indexes and notes a model creates its index. -/
theorem createIndex_fresh (m : Model) {store : Store} (hindexes : store.indexes = [])
    (hnotes : store.notes = []) : Edit.on m.createIndex store = (.ok true, store.withIndex m) := by
  have hnote : store.note? m.fingerprintKey = none := by
    rw [Store.note?, hnotes]
    rfl
  have habsent : store.indexes.get? m.indexName = none := by
    rw [hindexes]
    rfl
  rw [createIndex_on, hnote]
  simp only [reduceCtorEq, if_false, Option.isSome_none, Bool.false_eq_true]
  rw [Store.createIndex_of_absent m.head?_arguments habsent]
  rfl

/-- After its index was created, a model finds all documents that the index covers. -/
theorem search_withIndex (m : Model) (store : Store) {rest : List Bytes}
    (hlimit : utf8 "LIMIT" ∉ utf8 m.indexName :: rest) :
    ((store.withIndex m).search (utf8 m.indexName :: rest)).1 =
      .ok ⟨(covering store.documents (startOf m.indexDefinition.arguments)
          (treesOf m.indexDefinition.arguments)).length,
        covering store.documents (startOf m.indexDefinition.arguments)
          (treesOf m.indexDefinition.arguments)⟩ := by
  have hindex : (store.withIndex m).indexes.get? m.indexName = some m.indexDefinition.arguments :=
    Entries.get?_insert_self _ _ _
  rw [Store.search_all hindex hlimit, Store.matching_eq]
  rfl

/-- The key start is read back from the arguments of the index of a canonical schema exactly if the
model is legible in this respect. -/
theorem startOf_eq_iff {m : Model} (hordered : m.schema.fields.Ordered) :
    startOf m.indexDefinition.arguments = m.settings.keyStart ↔
      (isKeyword "PREFIX" m.indexName = false → m.settings.keyStart = "" →
        Index.KeywordEnds m.indexDefinition.fields) ∧
      (isKeyword "PREFIX" m.indexName = true →
        m.settings.keyStart = m.settings.storage.label) := by
  obtain ⟨hregular, hpaths⟩ := Index.regular_fields hordered m.name m.settings
  cases hname : isKeyword "PREFIX" m.indexName with
  | true =>
    have hnamed : startOf m.indexDefinition.arguments = m.settings.storage.label :=
      IndexDefinition.startOf_arguments_named hname
    rw [hnamed]
    exact ⟨fun h => ⟨fun hfalse => absurd hfalse (by decide), fun _ => h.symm⟩,
      fun h => (h.2 rfl).symm⟩
  | false =>
    have hstart : startOf m.indexDefinition.arguments = m.settings.keyStart ↔
        (m.settings.keyStart = "" → Index.KeywordEnds m.indexDefinition.fields) :=
      IndexDefinition.startOf_arguments hname hregular hpaths
    rw [hstart]
    exact ⟨fun h => ⟨fun _ => h, fun htrue => absurd htrue (by decide)⟩, fun h => h.1 rfl⟩

/-- On a store without indexes and notes a model of a canonical schema creates its index. Whatever
the store holds, searches on it that ask for no page find exactly the documents of the form of its
settings under its key start, in the order of their keys, if and only if the model is legible. -/
theorem search_covers_iff {m : Model} (hschema : m.schema.IsCanonical) :
    (∀ store : Store, store.indexes = [] → store.notes = [] →
      Edit.on m.createIndex store = (.ok true, store.withIndex m)) ∧
    (∀ documents : Entries Stored, documents.Ordered →
      Entries.Ordered (m.covered documents)) ∧
    ((∀ store : Store, store.documents.Ordered → store.indexes = [] → store.notes = [] →
      ∀ rest : List Bytes, utf8 "LIMIT" ∉ rest →
        ((store.withIndex m).search (utf8 m.indexName :: rest)).1 =
          .ok ⟨(m.covered store.documents).length, m.covered store.documents⟩) ↔ m.Legible) := by
  refine ⟨fun store hindexes hnotes => m.createIndex_fresh hindexes hnotes,
    fun documents hdocuments => hdocuments.filter _, ?_⟩
  have hstart := startOf_eq_iff (m := m) hschema.sound.ordered
  have hform : treesOf m.indexDefinition.arguments = m.settings.storage.isTrees ↔ _ :=
    IndexDefinition.treesOf_arguments
  constructor
  · intro h
    -- an index named after the keyword refuses every search, already on an empty store
    have hpage : m.indexName ≠ "LIMIT" := by
      intro hname
      have hindex : (Store.withIndex {} m).indexes.get? m.indexName = _ :=
        Entries.get?_insert_self _ _ _
      have hfound := h {} List.Pairwise.nil rfl rfl [] List.not_mem_nil
      rw [hname] at hindex hfound
      rw [Store.search_limit hindex] at hfound
      cases hfound
    -- finding the right documents on every store makes the two ways to cover one function
    have hsame : ∀ documents : Entries Stored, documents.Ordered →
        covering documents (startOf m.indexDefinition.arguments)
          (treesOf m.indexDefinition.arguments) = m.covered documents := by
      intro documents hdocuments
      have hlimit : utf8 "LIMIT" ∉ [utf8 m.indexName] := by
        rw [List.mem_singleton, Store.utf8_inj]
        exact hpage.symm
      have hfound := h { documents } hdocuments rfl rfl [] List.not_mem_nil
      rw [m.search_withIndex _ hlimit] at hfound
      exact (Store.Reply.mk.inj (Except.ok.inj hfound)).2
    obtain ⟨hstartEq, hformEq⟩ := Store.covering_inj.1 hsame
    obtain ⟨hunnamed, hnamed⟩ := hstart.1 hstartEq
    exact ⟨hpage, hform.1 hformEq, hunnamed, hnamed⟩
  · intro hlegible store _ _ _ rest hrest
    have hlimit : utf8 "LIMIT" ∉ utf8 m.indexName :: rest := by
      rw [List.mem_cons, Store.utf8_inj, not_or]
      exact ⟨hlegible.page.symm, hrest⟩
    rw [m.search_withIndex store hlimit, hstart.2 ⟨hlegible.start, hlegible.start_named⟩,
      hform.2 hlegible.form]
    rfl

end Model

/-! ## A field with a keyword as its name -/

/-- A text with the name of a keyword. -/
def phoneDeclarations : Declarations := [("prefix", .shorthand "string")]

/-- The schema that a phone is declared with. -/
def phoneSchema : Schema where
  fields := [("prefix", .ofKind (.string ',' false))]
  references := []
  relations := []
  warnings := []

/-- The schema of phones comes from its declarations. -/
theorem phoneSchema_isCanonical : phoneSchema.IsCanonical := by
  refine ⟨phoneDeclarations, ⟨by decide, ?_⟩, rfl⟩
  simp +decide [phoneDeclarations, declarationsSatisfy, Declaration.Satisfies]

/-- Phones in hashes under a key start. -/
def phoneModel (keyStart : String) : Model where
  name := "phone"
  schema := phoneSchema
  settings := { storage := .hash, keyStart }

/-- A store with documents of several models. -/
def phoneStore : Store where
  documents := [("desk:1", .hash [("prefix", "2")]), ("phone:1", .hash [("prefix", "049")]),
    ("phone:2", .tree .null)]

/-- The index of phones has a name that does not depend on the key start. -/
theorem phoneModel_indexName (keyStart : String) :
    (phoneModel keyStart).indexName = "idx:phone" := rfl

/-- The settings of phones can be read back from the arguments of the index. -/
theorem phoneModel_legible : (phoneModel "phone:").Legible :=
  Model.Legible.of_keyStart (by decide) (by rw [phoneModel_indexName]; decide +kernel)
    (by rw [phoneModel_indexName]; decide +kernel) (by rw [phoneModel_indexName]; decide +kernel)

/-- A phone with a field of the name of the keyword is found. -/
theorem Model.search_covers_iff_phones :
    phoneSchema.IsCanonical ∧ phoneStore.documents.Ordered ∧ (phoneModel "phone:").Legible ∧
      ((phoneStore.withIndex (phoneModel "phone:")).search [utf8 "idx:phone", utf8 "*"]).1 =
        .ok ⟨1, [("phone:1", .hash [("prefix", "049")])]⟩ := by
  have hordered : phoneStore.documents.Ordered := by
    unfold Entries.Ordered
    decide
  have hcovers := (Model.search_covers_iff (m := phoneModel "phone:") phoneSchema_isCanonical).2.2
  have hfound := hcovers.2 phoneModel_legible phoneStore hordered rfl rfl [utf8 "*"]
    (by decide +kernel)
  exact ⟨phoneSchema_isCanonical, hordered, phoneModel_legible, hfound⟩

/-- With all keys as its own, the model finds nothing: its only field is taken for a key start. -/
theorem Model.search_misses_phones :
    phoneSchema.IsCanonical ∧
      Edit.on (phoneModel "").createIndex phoneStore =
        (.ok true, phoneStore.withIndex (phoneModel "")) ∧
      (phoneModel "").covered phoneStore.documents =
        [("desk:1", .hash [("prefix", "2")]), ("phone:1", .hash [("prefix", "049")])] ∧
      ((phoneStore.withIndex (phoneModel "")).search [utf8 "idx:phone", utf8 "*"]).1 =
        .ok ⟨0, []⟩ := by
  have harguments : (phoneModel "").indexDefinition.arguments =
      ["idx:phone", "ON", "HASH", "SCHEMA"] ++ ["prefix", "TAG", "SEPARATOR", ","] := rfl
  have hstart : startOf (phoneModel "").indexDefinition.arguments = "SEPARATOR" := by
    have hfront : ∀ a ∈ ["idx:phone", "ON", "HASH", "SCHEMA"], isKeyword "PREFIX" a = false := by
      decide +kernel
    have hfield : isKeyword "PREFIX" "prefix" = true := isKeyword_iff.2 (by decide)
    rw [startOf, harguments, argumentAfter?_append hfront,
      argumentAfter?_keyword hfield]
    rfl
  have htrees : treesOf (phoneModel "").indexDefinition.arguments = false :=
    IndexDefinition.treesOf_arguments.2 fun _ => rfl
  have hlimit : utf8 "LIMIT" ∉ [utf8 (phoneModel "").indexName, utf8 "*"] := by
    rw [phoneModel_indexName]
    decide +kernel
  have hfound := (phoneModel "").search_withIndex phoneStore hlimit
  rw [hstart, htrees] at hfound
  exact ⟨phoneSchema_isCanonical, Model.createIndex_fresh _ rfl rfl, rfl, hfound⟩

end DocumentSchema
