import DocumentSchema.Proofs.Query.Bindings
import DocumentSchema.Proofs.Query.Vectors
import DocumentSchema.Proofs.Store.Coverage

/-!
# Pages in requests

A store looks for the page of a search at the first argument that is the keyword of pages. The
arguments of a request have more in front of it and behind it: the names of the index and of the field
that orders the results, the query, and the parameters with their bytes. The clauses of a session can
make neither a query nor a parameter that is the keyword (`Request.Plain`, `Session.Reached.plain`). A
name can be the keyword, and then the store takes what follows the name for a page and refuses the
request. In all other cases it reads the page back (`Session.pageOf_arguments`).
-/

set_option autoImplicit false

namespace DocumentSchema

open Decimal (Digit natText)

/-! ## Numbers as bytes of text -/

/-- The bytes of a text are those of its characters. -/
theorem utf8_eq_flatMap (s : String) : utf8 s = s.toList.flatMap String.utf8EncodeChar := by
  unfold utf8
  rw [String.toUTF8_eq_toByteArray]
  conv_lhs => rw [← String.ofList_toList (s := s)]
  rw [String.toByteArray_ofList, List.utf8Encode, List.toList_data_toByteArray]

/-- A character of ASCII is a single byte. -/
theorem utf8EncodeChar_ascii {c : Char} (h : c.toNat < 128) :
    String.utf8EncodeChar c = [UInt8.ofNat c.toNat] := by
  have hsmall : c.val.toNat ≤ 127 := Nat.le_of_lt_succ h
  unfold String.utf8EncodeChar
  rw [if_pos hsmall]
  rfl

/-- A character of ASCII is read from its byte. -/
theorem ofNat_toNat_ascii {c : Char} (h : c.toNat < 128) :
    Char.ofNat (UInt8.ofNat c.toNat).toNat = c := by
  have hbyte : (UInt8.ofNat c.toNat).toNat = c.toNat := by
    rw [UInt8.toNat_ofNat']
    omega
  rw [hbyte, Char.ofNat_toNat]

/-- The bytes of an ASCII text are its characters. -/
theorem map_utf8_ascii {s : String} (h : ∀ c ∈ s.toList, c.toNat < 128) :
    (utf8 s).map (fun b => Char.ofNat b.toNat) = s.toList := by
  rw [utf8_eq_flatMap]
  generalize s.toList = cs at h
  induction cs with
  | nil => rfl
  | cons c cs ih =>
    obtain ⟨hc, hcs⟩ := List.forall_mem_cons.1 h
    rw [List.flatMap_cons, List.map_append, ih hcs, utf8EncodeChar_ascii hc, List.map_singleton,
      ofNat_toNat_ascii hc, List.singleton_append]

/-- Digits are characters of ASCII. -/
theorem toChar_ascii (d : Digit) : d.toChar.toNat < 128 := by
  revert d
  decide

namespace Store

/-- A count is read back from the bytes of its numeral. -/
theorem readCountBytes?_natText (n : UInt64) :
    readCountBytes? (utf8 (natText n.toNat)) = some n := by
  have hascii : ∀ c ∈ (natText n.toNat).toList, c.toNat < 128 := by
    intro c hc
    obtain ⟨d, rfl⟩ := Decimal.exists_of_mem_natText hc
    exact toChar_ascii d
  unfold readCountBytes?
  rw [map_utf8_ascii hascii, Decimal.readCount?_natText n.toNat_lt, Option.map_some,
    UInt64.ofNat_toNat]

/-- A text is no count if it starts with an ASCII character that is neither a digit nor a plus. -/
theorem readCountBytes?_of_head {s : String} {c : Char} (hc : s.toList.head? = some c)
    (hascii : c.toNat < 128) (hplus : c ≠ '+') (hdigit : Digit.ofChar? c = none) :
    readCountBytes? (utf8 s) = none := by
  obtain ⟨cs, hs⟩ := List.head?_eq_some_iff.1 hc
  have hmem : c ∈ (utf8 s).map fun b => Char.ofNat b.toNat := by
    rw [utf8_eq_flatMap, hs, List.flatMap_cons, utf8EncodeChar_ascii hascii, List.map_append,
      List.map_singleton, ofNat_toNat_ascii hascii]
    exact List.mem_cons_self
  unfold readCountBytes?
  rw [Option.map_eq_none_iff]
  by_contra hread
  obtain ⟨n, hn⟩ := Option.ne_none_iff_exists'.1 hread
  rcases Decimal.mem_of_readCount? hn hmem with hsign | hnumber
  · exact hplus hsign
  · rw [hdigit] at hnumber
    cases hnumber

/-! ## The scan for a page -/

/-- A scan for the page goes on past what is not its keyword. -/
theorem pageOf_pass {a : Bytes} (ha : a ≠ utf8 "LIMIT") (rest : List Bytes) :
    pageOf (a :: rest) = pageOf rest := by
  have hfront : ∀ b ∈ [a], b ≠ utf8 "LIMIT" := by
    intro b hb
    rwa [List.mem_singleton.1 hb]
  exact pageOf_append hfront rest

/-- The two arguments behind the keyword are the page. -/
theorem pageOf_keyword (rest : List Bytes) :
    pageOf (utf8 "LIMIT" :: rest) =
      match rest[0]?.bind readCountBytes?, rest[1]?.bind readCountBytes? with
      | some offset, some count => .ok (some ⟨offset, count⟩)
      | _, _ => .error .incompleteLimit := by
  unfold pageOf
  rw [List.findIdx?_cons, if_pos (decide_eq_true rfl)]
  rfl

/-- A page is read back from its arguments. -/
theorem pageOf_pageArguments (page : Query.Page) (rest : List Bytes) :
    pageOf (Query.Request.pageArguments (some page) ++ rest) = .ok (some page) := by
  rw [Query.Request.pageArguments, List.cons_append, pageOf_keyword]
  simp only [List.cons_append, List.getElem?_cons_zero, List.getElem?_cons_succ, Option.bind_some,
    readCountBytes?_natText]

/-- The keyword in front of a text that is no count is refused. -/
theorem pageOf_refused {a : Bytes} (ha : readCountBytes? a = none) (rest : List Bytes) :
    pageOf (utf8 "LIMIT" :: a :: rest) = .error .incompleteLimit := by
  rw [pageOf_keyword, List.getElem?_cons_zero, Option.bind_some, ha]

end Store

namespace Query

/-! ## Requests whose query and parameters are no keywords -/

/-- The query and the parameters of a request cannot be taken for the keyword of pages. -/
structure Request.Plain (r : Request) : Prop where
  query : r.query.toList.head? = some '*' ∨ r.query.toList.head? = some '('
  parameters : ∀ e ∈ r.parameters, e.1 ≠ "LIMIT" ∧ e.2 ≠ utf8 "LIMIT"

namespace Request

variable {r : Request}

/-- A text other than the keyword has other bytes. -/
theorem utf8_ne_limit {text : String} (h : text ≠ "LIMIT") : utf8 text ≠ utf8 "LIMIT" := by
  rwa [Ne, Store.utf8_inj]

/-- The query of a plain request is no number. -/
theorem Plain.readCountBytes?_query (h : r.Plain) :
    Store.readCountBytes? (utf8 r.query) = none := by
  rcases h.query with hhead | hhead
  · exact Store.readCountBytes?_of_head hhead (by decide) (by decide) (by decide)
  · exact Store.readCountBytes?_of_head hhead (by decide) (by decide) (by decide)

/-- A plain query is not the keyword. -/
theorem Plain.query_ne (h : r.Plain) : utf8 r.query ≠ utf8 "LIMIT" := by
  apply utf8_ne_limit
  intro hlimit
  have hquery := h.query
  rw [hlimit] at hquery
  revert hquery
  decide

/-- The name of an order is no count. -/
theorem readCountBytes?_label (order : SortOrder) :
    Store.readCountBytes? (utf8 order.label) = none := by
  cases order
  · exact Store.readCountBytes?_of_head (c := 'A') rfl (by decide) (by decide) (by decide)
  · exact Store.readCountBytes?_of_head (c := 'D') rfl (by decide) (by decide) (by decide)

/-- The text of a natural number is not the keyword. -/
theorem natText_ne_limit (n : Nat) : utf8 (natText n) ≠ utf8 "LIMIT" := by
  apply utf8_ne_limit
  intro hlimit
  have hmem : 'L' ∈ (natText n).toList := by
    rw [hlimit]
    exact List.mem_cons_self
  obtain ⟨d, hd⟩ := Decimal.exists_of_mem_natText hmem
  revert d
  decide

/-- The name of an order is not the keyword. -/
theorem label_ne_limit (order : SortOrder) : utf8 order.label ≠ utf8 "LIMIT" := by
  apply utf8_ne_limit
  cases order <;> decide

/-- The keyword does not stand among the arguments of a dialect. -/
theorem dialectArguments_ne_limit {dialect : Option UInt32} {a : Bytes}
    (ha : a ∈ dialectArguments dialect) : a ≠ utf8 "LIMIT" := by
  cases dialect with
  | none => cases ha
  | some dialect =>
    simp only [dialectArguments, List.mem_cons, List.not_mem_nil, or_false] at ha
    rcases ha with rfl | rfl
    · exact utf8_ne_limit (by decide)
    · exact natText_ne_limit _

/-- The keyword does not stand among plain parameters. -/
theorem Plain.parameterArguments_ne_limit (h : r.Plain) {a : Bytes}
    (ha : a ∈ parameterArguments r.parameters) : a ≠ utf8 "LIMIT" := by
  unfold parameterArguments at ha
  split at ha
  · cases ha
  · rcases List.mem_append.1 ha with hcount | hbound
    · simp only [List.mem_cons, List.not_mem_nil, or_false] at hcount
      rcases hcount with rfl | rfl
      · exact utf8_ne_limit (by decide)
      · exact natText_ne_limit _
    · obtain ⟨e, he, hpair⟩ := List.mem_flatMap.1 hbound
      obtain ⟨hname, hbytes⟩ := h.parameters e he
      simp only [List.mem_cons, List.not_mem_nil, or_false] at hpair
      rcases hpair with rfl | rfl
      · exact utf8_ne_limit hname
      · exact hbytes

/-- From the arguments of its page on, the page of a plain request is read back. -/
theorem Plain.pageOf_rest (h : r.Plain) :
    Store.pageOf (pageArguments r.page ++ (parameterArguments r.parameters ++
      dialectArguments r.dialect)) = .ok r.page := by
  cases hpage : r.page with
  | none =>
    rw [pageArguments, List.nil_append]
    apply Store.pageOf_none
    intro a ha
    rcases List.mem_append.1 ha with hparameter | hdialect
    · exact h.parameterArguments_ne_limit hparameter
    · exact dialectArguments_ne_limit hdialect
  | some page => exact Store.pageOf_pageArguments page _

/-- The order in front of a page is passed over unless its field is the keyword of pages. -/
theorem pageOf_sortArguments (sort : Option (String × SortOrder)) (rest : List Bytes) :
    Store.pageOf (sortArguments sort ++ rest) =
      if sort.map Prod.fst = some "LIMIT" then .error .incompleteLimit
      else Store.pageOf rest := by
  cases sort with
  | none => rfl
  | some sort =>
    obtain ⟨field, order⟩ := sort
    show Store.pageOf (utf8 "SORTBY" :: utf8 field :: utf8 order.label :: rest) = _
    rw [Store.pageOf_pass (utf8_ne_limit (by decide)), Option.map_some]
    by_cases hfield : field = "LIMIT"
    · rw [if_pos (congrArg some hfield), hfield]
      exact Store.pageOf_refused (readCountBytes?_label order) rest
    · rw [if_neg fun h => hfield (Option.some.inj h), Store.pageOf_pass (utf8_ne_limit hfield),
        Store.pageOf_pass (label_ne_limit order)]

/-- The page of a plain request is read back from its arguments unless the name of the index or of
the field of its order is the keyword of pages. -/
theorem Plain.pageOf_eq (h : r.Plain) (index : String) :
    Store.pageOf (r.arguments index) =
      if index = "LIMIT" ∨ r.sort.map Prod.fst = some "LIMIT" then .error .incompleteLimit
      else .ok r.page := by
  have harguments : r.arguments index =
      utf8 index :: utf8 r.query :: (sortArguments r.sort ++ (pageArguments r.page ++
        (parameterArguments r.parameters ++ dialectArguments r.dialect))) := by
    unfold arguments
    simp only [List.append_assoc, List.cons_append, List.nil_append]
  rw [harguments]
  by_cases hindex : index = "LIMIT"
  · rw [if_pos (Or.inl hindex), hindex]
    exact Store.pageOf_refused h.readCountBytes?_query _
  · rw [Store.pageOf_pass (utf8_ne_limit hindex), Store.pageOf_pass h.query_ne,
      pageOf_sortArguments, h.pageOf_rest]
    simp only [hindex, false_or]

end Request

/-! ## Requests of sessions -/

/-- The name of a query vector is longer than the keyword of pages. -/
theorem rangeParameter_ne_limit (name : String) : rangeParameter name ≠ "LIMIT" := by
  intro hlimit
  have hlength := congrArg String.length hlimit
  unfold rangeParameter at hlength
  rw [String.length_append] at hlength
  have hshort : ("LIMIT" : String).length = 5 := rfl
  have hlong : ("_range" : String).length = 6 := rfl
  omega

/-- A text that goes on begins as before. -/
theorem head?_toList_append {s : String} {c : Char} (h : s.toList.head? = some c) (t : String) :
    (s ++ t).toList.head? = some c := by
  rw [String.toList_append, List.head?_append, h, Option.some_or]

/-- Texts put together begin as the first of them. -/
theorem head?_toList_intercalate {first : String} {c : Char} (h : first.toList.head? = some c)
    (separator : String) (rest : List String) :
    (separator.intercalate (first :: rest)).toList.head? = some c := by
  cases rest with
  | nil => rwa [String.intercalate_singleton]
  | cons next others =>
    rw [String.intercalate_cons_cons, String.append_assoc]
    exact head?_toList_append h _

section

variable {schema : Schema} {storage : Storage}

/-- No query vector has the length of the keyword of pages. -/
theorem ClauseHistory.bytes_ne (c : ClauseHistory) (vector : List Binary64) :
    c.bytes schema storage vector ≠ utf8 "LIMIT" := by
  have hfive : (utf8 "LIMIT").length = 5 := by decide +kernel
  have hfour : 4 ∣ (c.bytes schema storage vector).length := by
    unfold bytes
    cases c.fresh? schema storage with
    | none => exact Nat.dvd_zero 4
    | some fresh =>
      cases fresh with
      | neighbours clause =>
        have hformat : 4 ∣ clause.component.format.bytes := by cases clause.component <;> decide
        show 4 ∣ (vectorBytes clause.component vector).length
        rw [length_vectorBytes]
        exact hformat.mul_left _
      | _ => exact Nat.dvd_zero 4
  intro hlimit
  rw [hlimit, hfive] at hfour
  revert hfour
  decide

/-- The text of a clause begins with a parenthesis. -/
theorem ClauseHistory.head?_text (c : ClauseHistory) :
    (c.text schema storage).toList.head? = some '(' := by
  unfold text
  simp only [String.append_assoc]
  split
  · exact head?_toList_append rfl _
  · exact head?_toList_append rfl _

namespace History

variable {h : History}

/-- A query starts with its only character or with a parenthesis. -/
theorem head?_query :
    (h.query schema storage).toList.head? = some '*' ∨
      (h.query schema storage).toList.head? = some '(' := by
  have hall : ("*" : String).toList.head? = some '*' := rfl
  have hparenthesis : ("(" : String).toList.head? = some '(' := rfl
  have hchain : ∀ {first : String} {rest : List String}, h.chain schema storage = first :: rest →
      (String.intercalate " " (first :: rest)).toList.head? = some '(' := by
    intro first rest hcons
    have hmem : first ∈ h.chain schema storage := by
      rw [hcons]
      exact List.mem_cons_self
    obtain ⟨c, _, rfl⟩ := List.mem_map.1 hmem
    exact head?_toList_intercalate c.head?_text " " rest
  unfold query
  cases hcons : h.chain schema storage with
  | nil =>
    left
    split
    · exact hall
    · simp only [if_true, String.append_assoc]
      exact head?_toList_append hall _
  | cons first rest =>
    right
    simp only [reduceCtorEq, if_false]
    split
    · exact hchain hcons
    · split <;> simp only [String.append_assoc]
      · exact head?_toList_append hparenthesis _
      · exact head?_toList_append (hchain hcons) _

/-- A parameter has one of the names that the query refers to and the bytes of a query vector. -/
theorem parameters_ne {e : String × Bytes} (he : e ∈ h.parameters schema storage) :
    e.1 ≠ "LIMIT" ∧ e.2 ≠ utf8 "LIMIT" := by
  have hranges : ∀ e ∈ Entries.ofList (h.clauses.filterMap
      (ClauseHistory.parameter? schema storage)), e.1 ≠ "LIMIT" ∧ e.2 ≠ utf8 "LIMIT" := by
    intro e he
    rcases Entries.mem_insertAll he with hmem | hnil
    · obtain ⟨c, _, hparameter⟩ := List.mem_filterMap.1 hmem
      obtain ⟨found, _, rfl⟩ := Option.map_eq_some_iff.1 hparameter
      exact ⟨rangeParameter_ne_limit _, c.bytes_ne _⟩
    · cases hnil
  unfold parameters at he
  cases hnearest : h.nearest? schema storage with
  | none =>
    rw [hnearest] at he
    exact hranges e he
  | some found =>
    rw [hnearest] at he
    rcases Entries.mem_insert he with rfl | hrange
    · obtain ⟨c, _, hfound⟩ := List.mem_filterMap.1 (List.mem_of_getLast? hnearest)
      obtain ⟨_, _, rfl⟩ := Option.map_eq_some_iff.1 hfound
      have hname : nearestParameter ≠ "LIMIT" := by decide
      exact ⟨hname, c.bytes_ne _⟩
    · exact hranges e hrange

end History

end

namespace Session

/-- Some calls lead to this session from a search without clauses. -/
def Reached (session : Session) : Prop :=
  ∃ schema storage calls, (start schema storage).run calls = session

/-- Calls lead from reached sessions to reached sessions. -/
theorem Reached.run {session : Session} (h : session.Reached) (calls : List Call) :
    (session.run calls).Reached := by
  obtain ⟨schema, storage, before, rfl⟩ := h
  refine ⟨schema, storage, before ++ calls, ?_⟩
  unfold Session.run
  rw [List.foldl_append]

/-- The searches of a model start with two calls at most. -/
theorem reached_model (m : Model) : Reached { search := m.search } := by
  cases hdialect : m.settings.dialect with
  | none =>
    refine ⟨m.schema, m.settings.storage, [.page ⟨0, m.settings.pageSize⟩], ?_⟩
    rw [Model.search, hdialect]
    rfl
  | some dialect =>
    refine ⟨m.schema, m.settings.storage, [.dialect dialect, .page ⟨0, m.settings.pageSize⟩], ?_⟩
    rw [Model.search, hdialect]
    rfl

/-- Whatever calls lead to a session, its request is plain. -/
theorem Reached.plain {session : Session} (h : session.Reached) {request : Request}
    (hcompile : session.search.compile = .ok request) : request.Plain := by
  obtain ⟨schema, storage, calls, rfl⟩ := h
  rw [((tells_start schema storage).run calls).compile] at hcompile
  obtain ⟨_, rfl⟩ := History.compile_eq_ok hcompile
  exact ⟨History.head?_query, fun e he => History.parameters_ne he⟩

/-- Whatever calls lead to a session, a store reads the page of its request back from the arguments,
unless the index or the field of the order has the keyword of pages as its name. Then the request is
refused, with a page or without one. -/
theorem pageOf_arguments {session : Session} {request : Request} (hreached : session.Reached)
    (hcompile : session.search.compile = .ok request) (index : String) :
    Store.pageOf (request.arguments index) =
      if index = "LIMIT" ∨ request.sort.map Prod.fst = some "LIMIT" then .error .incompleteLimit
      else .ok request.page := by
  have hplain : request.Plain := hreached.plain hcompile
  exact hplain.pageOf_eq index

/-! ### Road signs in order of the road and of the speed limit -/

/-- A number with the name of a keyword, and a text. -/
def signDeclarations : Declarations := [("LIMIT", .shorthand "number"), ("road", .shorthand "string")]

/-- Signs with a limit and a road. -/
def signModel : Model where
  name := "sign"
  schema := {
    fields := [("LIMIT", .ofKind (.number none)), ("road", .ofKind (.string ',' false))]
    references := []
    relations := []
    warnings := [] }
  settings := {}

/-- The schema of signs comes from its declarations. -/
theorem signSchema_isCanonical : signModel.schema.IsCanonical := by
  refine ⟨signDeclarations, ⟨by decide, ?_⟩, rfl⟩
  simp +decide [signDeclarations, declarationsSatisfy, Declaration.Satisfies]

/-- A search of the model, ordered by one of its fields. -/
def signsBy (field : String) : Session := ({ search := signModel.search } : Session).run
  [.openClause "road", .operate (.eq (.string "A1")), .sortBy field .descending]

/-- The request for signs on one road, sorted by a field. -/
def signRequest (field : String) : Request where
  query := "(@road:{A1})"
  dialect := none
  parameters := []
  sort := some (field, .descending)
  page := some ⟨0, 10⟩

/-- A search for signs sorted by roads has the page that it asks for. -/
theorem pageOf_arguments_roads :
    (signsBy "road").Reached ∧ (signsBy "road").search.compile = .ok (signRequest "road") ∧
      Store.pageOf ((signRequest "road").arguments "idx:sign") = .ok (some ⟨0, 10⟩) := by
  have hreached : (signsBy "road").Reached := (reached_model signModel).run _
  have hcompile : (signsBy "road").search.compile = .ok (signRequest "road") := by decide
  have hpage := pageOf_arguments hreached hcompile "idx:sign"
  rw [if_neg (by decide)] at hpage
  exact ⟨hreached, hcompile, hpage⟩

/-- In the order of the speed limit, the page of the same search is not read back. -/
theorem page_misread :
    ¬ ∀ (session : Session) (request : Request) (index : String), session.Reached →
      session.search.schema.IsCanonical → session.search.compile = .ok request →
      Store.pageOf (request.arguments index) = .ok request.page := by
  intro h
  have hreached : (signsBy "LIMIT").Reached := (reached_model signModel).run _
  have hcompile : (signsBy "LIMIT").search.compile = .ok (signRequest "LIMIT") := by decide
  have hmisread := (hreached.plain hcompile).pageOf_eq "idx:sign"
  rw [if_pos (Or.inr (by decide)), h _ _ _ hreached signSchema_isCanonical hcompile] at hmisread
  cases hmisread

end Session

end Query

end DocumentSchema
