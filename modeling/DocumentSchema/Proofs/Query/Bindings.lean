import DocumentSchema.Proofs.Query.Parameters

/-!
# What a request binds

The query of a request refers to parameters by their names: a clause on the vectors within a radius
to that of its search name, and the suffix on nearest neighbours to one of its own. The request has to
bring a value for each of them and for nothing else, and it has to ask for a dialect that knows
parameters as soon as there is one. `History.BoundBy` says so in terms of the calls, and every session
that compiles gives such a request (`Session.request_boundBy`), however its clauses came to look for
what they look for in the end.
-/

set_option autoImplicit false

namespace DocumentSchema.Query

/-- Whether a query refers to a parameter: a dollar sign, the name, and the end of a clause. -/
def Mentions (query name : String) : Prop :=
  ∃ before after, query = before ++ ("$" ++ name ++ "]") ++ after

/-- The parameter of a clause, if it looks for the vectors within a radius. -/
def ClauseHistory.parameterName? (c : ClauseHistory) : Option String :=
  c.within?.map fun _ => rangeParameter (searchName c.path)

/-- The parameters of the clauses within a radius, and that of nearest neighbours if a clause looks
for them. -/
def History.parameterNames (h : History) : List String :=
  h.clauses.filterMap ClauseHistory.parameterName? ++
    if h.clauses.any fun c => c.nearest?.isSome then ["BLOB"] else []

/-- A request brings what its query refers to. -/
structure History.BoundBy (h : History) (request : Request) : Prop where
  keys : ∀ name, name ∈ request.parameters.keys ↔ name ∈ h.parameterNames
  mentioned : ∀ name ∈ h.parameterNames, Mentions request.query name
  apart : ∀ c ∈ h.clauses, ∀ name, c.parameterName? = some name →
    name ≠ "BLOB" ∧ ∀ d ∈ h.clauses, d.parameterName? = some name →
      searchName d.path = searchName c.path
  dialect : request.dialect =
    if request.parameters.isEmpty then h.dialect
    else some (h.dialect.elim 2 fun requested => max requested 2)

/-! ## Texts in texts -/

/-- A query refers to what a part of it refers to. -/
theorem Mentions.append {query name : String} (h : Mentions query name) (front rest : String) :
    Mentions (front ++ query ++ rest) name := by
  obtain ⟨before, after, rfl⟩ := h
  exact ⟨front ++ before, after ++ rest, by simp only [String.append_assoc]⟩

/-- Texts put together refer to what one of them refers to. -/
theorem Mentions.intercalate {text name : String} (h : Mentions text name) {texts : List String}
    (hmem : text ∈ texts) (separator : String) : Mentions (separator.intercalate texts) name := by
  induction texts with
  | nil => cases hmem
  | cons first rest ih =>
    cases rest with
    | nil =>
      obtain rfl := List.mem_singleton.1 hmem
      rwa [String.intercalate_singleton]
    | cons next others =>
      rw [String.intercalate_cons_cons]
      rcases List.mem_cons.1 hmem with rfl | hrest
      · have hfirst := h.append "" (separator ++ separator.intercalate (next :: others))
        rwa [String.empty_append, ← String.append_assoc] at hfirst
      · have hlater := (ih hrest).append (first ++ separator) ""
        rwa [String.append_empty] at hlater

/-! ## Names and clauses -/

/-- Some member has a property or is picked exactly if one has it or something is picked. -/
theorem any_or_isSome {α β : Type} (p : α → Bool) (f : α → Option β) (list : List α) :
    (list.any fun a => p a || (f a).isSome) = (list.any p || !(list.filterMap f).isEmpty) := by
  induction list with
  | nil => rfl
  | cons a rest ih =>
    rw [List.any_cons, List.any_cons, List.filterMap_cons, ih]
    cases p a <;> cases f a <;> simp

section

variable {schema : Schema} {storage : Storage}

/-- The last vector operator is one. -/
theorem isVector_of_lastVector? {operators : List Operator} {operator : Operator}
    (h : lastVector? operators = some operator) : operator.isVector = true :=
  (List.mem_filter.1 (List.mem_of_getLast? h)).2

/-- A clause with an operator on a vector looks for nearest neighbours or has a parameter. -/
theorem ClauseHistory.lastVector?_isSome (c : ClauseHistory) :
    (lastVector? c.operators).isSome = (c.nearest?.isSome || c.parameterName?.isSome) := by
  unfold parameterName? nearest? within?
  cases hlast : lastVector? c.operators with
  | none => rfl
  | some operator =>
    have hvector := isVector_of_lastVector? hlast
    cases operator <;> first | rfl | contradiction

/-- A clause with a parameter stands in the chain, and its text refers to the parameter. -/
theorem Clause.Tells.mentions {clause : Clause} {c : ClauseHistory}
    (h : clause.Tells schema storage c) {name : String} (hname : c.parameterName? = some name) :
    c.nearest? = none ∧ Mentions (c.text schema storage) name := by
  obtain ⟨⟨radius, vector⟩, hwithin, rfl⟩ := Option.map_eq_some_iff.1 hname
  obtain ⟨field, _, htoken, _⟩ := h.within hwithin
  constructor
  · unfold ClauseHistory.within? at hwithin
    unfold ClauseHistory.nearest?
    obtain ⟨operator, hlast, hoperator⟩ := Option.bind_eq_some_iff.1 hwithin
    rw [hlast]
    cases operator <;> first | rfl | contradiction
  · have hmentions : Mentions (c.token schema storage) (rangeParameter (Query.searchName c.path)) := by
      refine ⟨"[VECTOR_RANGE " ++ radius.token ++ " ", "", ?_⟩
      rw [htoken, String.append_empty]
      have hblank : (" $" : String) = " " ++ "$" := rfl
      rw [hblank]
      simp only [String.append_assoc]
    unfold ClauseHistory.text
    split
    · exact hmentions.append ("(-(@" ++ Query.searchName c.path ++ ":") "))"
    · exact hmentions.append ("(@" ++ Query.searchName c.path ++ ":") ")"

namespace History

variable {h : History}

/-- A history that compiles has no fault, and its request follows from its parts. -/
theorem compile_eq_ok {request : Request} (hcompile : h.compile schema storage = .ok request) :
    h.clauses.findSome? ClauseHistory.fault? = none ∧
      request = {
        query := h.query schema storage
        dialect := h.requestDialect
        parameters := h.parameters schema storage
        sort := h.sort
        page := h.page } := by
  unfold compile at hcompile
  split at hcompile
  next => contradiction
  next hfault => exact ⟨hfault, (Except.ok.inj hcompile).symm⟩

/-- A search is for neighbours exactly if some clause is. -/
theorem nearest?_isSome :
    (h.nearest? schema storage).isSome = h.clauses.any fun c => c.nearest?.isSome := by
  unfold nearest?
  rw [Bool.eq_iff_iff, List.getLast?_isSome, List.any_eq_true, Ne, List.filterMap_eq_nil_iff]
  simp [Option.isSome_iff_ne_none]

/-- The query refers to what a clause of its chain refers to. -/
theorem mentions_query {text name : String} (hmem : text ∈ h.chain schema storage)
    (hmentions : Mentions text name) : Mentions (h.query schema storage) name := by
  have hne : h.chain schema storage ≠ [] := List.ne_nil_of_mem hmem
  have hchain := hmentions.intercalate hmem " "
  unfold query
  simp only [hne, if_false]
  split
  · exact hchain
  · rename_i field count bytes _
    split
    · have hguarded := (hchain.append "(" ")").append ""
        ("=>[KNN " ++ Decimal.natText count ++ " @" ++ field ++ " $BLOB]")
      rw [String.empty_append] at hguarded
      simpa only [String.append_assoc] using hguarded
    · have hguarded := hchain.append "" ("=>[KNN " ++ Decimal.natText count ++ " @" ++ field ++ " $BLOB]")
      rw [String.empty_append] at hguarded
      simpa only [String.append_assoc] using hguarded

/-- The suffix on nearest neighbours refers to their parameter. -/
theorem mentions_nearest (hnearest : (h.nearest? schema storage).isSome = true) :
    Mentions (h.query schema storage) "BLOB" := by
  obtain ⟨⟨field, count, bytes⟩, hfound⟩ := Option.isSome_iff_exists.1 hnearest
  have hsuffix : Mentions ("=>[KNN " ++ Decimal.natText count ++ " @" ++ field ++ " $BLOB]") "BLOB" := by
    refine ⟨"=>[KNN " ++ Decimal.natText count ++ " @" ++ field ++ " ", "", ?_⟩
    have hend : (" $BLOB]" : String) = " " ++ ("$" ++ "BLOB" ++ "]") := rfl
    rw [String.append_empty, hend]
    simp only [String.append_assoc]
  unfold query
  rw [hfound]
  have hquery (front : String) := hsuffix.append front ""
  simpa only [String.append_empty, String.append_assoc] using hquery _

/-- The parameters are the ones that the query refers to. -/
theorem contains_parameters (name : String) :
    (h.parameters schema storage).contains name = true ↔ name ∈ h.parameterNames := by
  have hranges : (Entries.ofList (h.clauses.filterMap
      (ClauseHistory.parameter? schema storage))).contains name = true ↔
        name ∈ h.clauses.filterMap ClauseHistory.parameterName? := by
    unfold Entries.ofList
    rw [Entries.contains_insertAll, Bool.or_eq_true, Entries.contains_iff]
    simp [Entries.contains, ClauseHistory.parameter?, ClauseHistory.parameterName?]
  have hnearest : (h.clauses.any fun c => c.nearest?.isSome) =
      (h.nearest? schema storage).isSome := nearest?_isSome.symm
  unfold parameterNames parameters
  rw [List.mem_append, hnearest, ← hranges]
  cases h.nearest? schema storage with
  | none => simp
  | some found =>
    simp only [Entries.contains, Entries.get?_insert, Option.isSome_some, if_true,
      List.mem_singleton]
    by_cases hname : "BLOB" = name
    · simp [hname]
    · simp [hname, Ne.symm hname]

/-- There are parameters exactly if the query refers to some. -/
theorem isEmpty_parameters :
    (h.parameters schema storage).isEmpty = h.parameterNames.isEmpty := by
  rw [Bool.eq_iff_iff, List.isEmpty_iff, List.isEmpty_iff, List.eq_nil_iff_forall_not_mem,
    List.eq_nil_iff_forall_not_mem]
  constructor
  · intro hnone name hname
    obtain ⟨e, he, _⟩ := Entries.contains_iff.1 ((contains_parameters name).2 hname)
    exact hnone e he
  · intro hnone e he
    exact hnone e.1 ((contains_parameters e.1).1 (Entries.contains_iff.2 ⟨e, he, rfl⟩))

/-- A query refers to parameters exactly if an operator on a vector succeeded. -/
theorem any_lastVector?_isSome :
    (h.clauses.any fun c => (lastVector? c.operators).isSome) = !h.parameterNames.isEmpty := by
  simp only [ClauseHistory.lastVector?_isSome]
  unfold parameterNames
  rw [any_or_isSome]
  cases h.clauses.any fun c => c.nearest?.isSome <;> simp

/-- The dialect is raised as soon as there is a parameter. -/
theorem requestDialect_eq :
    h.requestDialect =
      if (h.parameters schema storage).isEmpty then h.dialect
      else some (h.dialect.elim 2 fun requested => max requested 2) := by
  have hraised : max (h.dialect.getD vectorDialect) vectorDialect =
      h.dialect.elim 2 fun requested => max requested 2 := by
    cases h.dialect <;> rfl
  unfold requestDialect
  rw [any_lastVector?_isSome, isEmpty_parameters, hraised]
  cases h.parameterNames.isEmpty <;> rfl

/-- A name in the query is that of a clause in the chain, or the one of the suffix. -/
theorem mentions_of_mem {clauses : List Clause}
    (htells : List.Forall₂ (Clause.Tells schema storage) clauses h.clauses) {name : String}
    (hname : name ∈ h.parameterNames) : Mentions (h.query schema storage) name := by
  rcases List.mem_append.1 hname with hclause | hnearest
  · obtain ⟨c, hc, hparameter⟩ := List.mem_filterMap.1 hclause
    obtain ⟨clause, hclause⟩ := exists_of_forall₂ htells hc
    obtain ⟨hchain, hmentions⟩ := hclause.mentions hparameter
    refine mentions_query (List.mem_map_of_mem (List.mem_filter.2 ⟨hc, ?_⟩)) hmentions
    rw [hchain]
    rfl
  · split at hnearest
    · rename_i hany
      obtain rfl := List.mem_singleton.1 hnearest
      exact mentions_nearest (nearest?_isSome.trans hany)
    · cases hnearest

end History

namespace Session

/-- After any run of calls, refused ones included, the request that a session compiles to has exactly
the parameters that its query refers to. Clauses of different search names and the suffix on nearest
neighbours do not share one, and the dialect is raised to two exactly if there is a parameter. -/
theorem request_boundBy {calls : List Call} {request : Request}
    (hcompile : ((start schema storage).run calls).search.compile = .ok request) :
    ((start schema storage).history calls {}).BoundBy request := by
  have htells := (tells_start schema storage).run calls
  rw [htells.compile] at hcompile
  obtain ⟨_, rfl⟩ := History.compile_eq_ok hcompile
  refine ⟨?_, ?_, ?_, History.requestDialect_eq⟩
  · intro name
    constructor
    · intro hkey
      exact (History.contains_parameters name).1 (Entries.contains_of_mem_keys hkey)
    · intro hname
      exact Entries.mem_keys_of_contains ((History.contains_parameters name).2 hname)
  · intro name hname
    exact History.mentions_of_mem htells.clauses hname
  · intro c _ name hname
    obtain ⟨_, _, rfl⟩ := Option.map_eq_some_iff.1 hname
    refine ⟨(nearestParameter_ne _).symm, ?_⟩
    intro d _ hsame
    obtain ⟨_, _, hnames⟩ := Option.map_eq_some_iff.1 hsame
    exact rangeParameter_inj hnames

/-! ### Pictures near others, after a change of mind -/

/-- Within one of a first picture, and near a second one: first within one of it, then among the
three nearest. -/
def changedMind : List Call :=
  [.dialect 1, .openClause "cover", .operate (.range one [one]), .andClause "page",
    .operate (.range one [two]), .operate (.knn 3 [two])]

/-- The clause that was within a radius before has no parameter, and the dialect is raised. -/
theorem request_boundBy_gallery :
    ((start gallerySchema .json).run changedMind).search.compile =
        .ok (nearRequest "(@cover:[VECTOR_RANGE 1 $cover_range])=>[KNN 3 @page $BLOB]"
          [("BLOB", twoBytes), ("cover_range", oneBytes)]) ∧
      ((start gallerySchema .json).history changedMind {}).BoundBy
        (nearRequest "(@cover:[VECTOR_RANGE 1 $cover_range])=>[KNN 3 @page $BLOB]"
          [("BLOB", twoBytes), ("cover_range", oneBytes)]) ∧
      ((start gallerySchema .json).history changedMind {}).parameterNames =
        ["cover_range", "BLOB"] := by
  have hcompile : ((start gallerySchema .json).run changedMind).search.compile =
      .ok (nearRequest "(@cover:[VECTOR_RANGE 1 $cover_range])=>[KNN 3 @page $BLOB]"
        [("BLOB", twoBytes), ("cover_range", oneBytes)]) := by decide
  exact ⟨hcompile, request_boundBy hcompile, by decide⟩

end Session

end

end DocumentSchema.Query
