import DocumentSchema.Proofs.Entries
import DocumentSchema.Proofs.Query.Compilation

/-!
# Which query vector a clause is bound to

A clause on the vectors within a radius names its query vector by the search name of its field, and
all such clauses of a session write into one map. Two clauses with one search name, on the same
field or on different paths to it, therefore name one parameter, and the later of them has it:
`boundBytes?` says whose bytes a name stands for. A clause reads its own query vector exactly if no
later clause with its search name brings other bytes (`Session.range_parameter_iff`).
-/

set_option autoImplicit false

namespace DocumentSchema.Query

/-- The names of two query vectors are the same only for the same search name. -/
theorem rangeParameter_inj {a b : String} (h : rangeParameter a = rangeParameter b) : a = b := by
  unfold rangeParameter at h
  have hlist := congrArg String.toList h
  rw [String.toList_append, String.toList_append] at hlist
  exact String.toList_inj.mp (List.append_cancel_right hlist)

/-- No clause within a radius takes the name of the query vector of nearest neighbours. -/
theorem nearestParameter_ne (name : String) : nearestParameter ≠ rangeParameter name := by
  intro h
  have hlist := congrArg String.toList h
  unfold rangeParameter at hlist
  rw [String.toList_append] at hlist
  have hlength := congrArg List.length hlist
  rw [List.length_append] at hlength
  have hshort : nearestParameter.toList.length = 4 := rfl
  have hlong : "_range".toList.length = 6 := rfl
  omega

/-- The bytes that clauses give to a parameter: the last of them that names it decides. -/
def boundBytes? (schema : Schema) (storage : Storage) (parameter : String)
    (clauses : List ClauseHistory) : Option Bytes :=
  ((clauses.filterMap (ClauseHistory.parameter? schema storage)).filter fun e =>
    e.1 = parameter).getLast?.map Prod.snd

section

variable {schema : Schema} {storage : Storage}

/-- A range parameter has the bytes that its last clause binds. -/
theorem History.get?_parameters (h : History) (name : String) :
    (h.parameters schema storage).get? (rangeParameter name) =
      boundBytes? schema storage (rangeParameter name) h.clauses := by
  have hranges : (Entries.ofList
      (h.clauses.filterMap (ClauseHistory.parameter? schema storage))).get? (rangeParameter name) =
        boundBytes? schema storage (rangeParameter name) h.clauses := by
    unfold Entries.ofList boundBytes?
    rw [Entries.get?_insertAll_last, Entries.get?_nil, Option.or_none]
  unfold History.parameters
  cases h.nearest? schema storage with
  | none => exact hranges
  | some found =>
    rw [← hranges]
    exact Entries.get?_insert_of_ne _ _ (nearestParameter_ne name)

/-- A clause binds a parameter over those before it. -/
theorem boundBytes?_append (parameter : String) (front rest : List ClauseHistory) :
    boundBytes? schema storage parameter (front ++ rest) =
      (boundBytes? schema storage parameter rest).or
        (boundBytes? schema storage parameter front) := by
  unfold boundBytes?
  rw [List.filterMap_append, List.filter_append, List.getLast?_append, Option.map_or]

/-- A clause that names a parameter has it unless one of the later clauses takes it. -/
theorem boundBytes?_split {c : ClauseHistory} {parameter : String} {bytes : Bytes}
    (hc : c.parameter? schema storage = some (parameter, bytes)) (front rest : List ClauseHistory) :
    boundBytes? schema storage parameter (front ++ c :: rest) =
      some ((boundBytes? schema storage parameter rest).getD bytes) := by
  have hown : boundBytes? schema storage parameter [c] = some bytes := by
    simp [boundBytes?, hc]
  have hsplit : front ++ c :: rest = front ++ ([c] ++ rest) := rfl
  rw [hsplit, boundBytes?_append, boundBytes?_append, hown]
  cases boundBytes? schema storage parameter rest <;> rfl

/-- What a clause within a radius has in the query and asks for as its parameter. -/
theorem Clause.Tells.within {clause : Clause} {c : ClauseHistory}
    (h : clause.Tells schema storage c) {radius : Binary64} {vector : List Binary64}
    (hwithin : c.within? = some (radius, vector)) :
    ∃ field : Neighbours, c.fresh? schema storage = some (.neighbours field) ∧
      c.token schema storage =
        "[VECTOR_RANGE " ++ radius.token ++ " $" ++
          rangeParameter (Query.searchName c.path) ++ "]" ∧
      c.parameter? schema storage =
        some (rangeParameter (Query.searchName c.path), vectorBytes field.component vector) := by
  obtain ⟨fresh, hfresh?, hfresh, hrun⟩ := h.exists_run
  obtain ⟨operator, hlast, hoperator⟩ := Option.bind_eq_some_iff.mp hwithin
  rcases hrun.vector_cases hfresh with ⟨_, hnone⟩ | ⟨field, rfl, hmatcher⟩
  · rw [hnone] at hlast
    contradiction
  · have hrange : operator = .range radius vector := by
      cases operator with
      | range => cases hoperator; rfl
      | _ => contradiction
    refine ⟨field, hfresh?, ?_, ?_⟩
    · unfold ClauseHistory.token
      rw [hfresh?, Option.bind_some, hrun.after_eq, hmatcher, hlast, hrange]
      rfl
    · unfold ClauseHistory.parameter? ClauseHistory.bytes
      rw [hwithin, hfresh?]
      rfl

/-- Every member of a list is related to one of a list related to it. -/
theorem exists_of_forall₂ {α β : Type} {R : α → β → Prop} {xs : List α} {ys : List β} {y : β}
    (h : List.Forall₂ R xs ys) (hmem : y ∈ ys) : ∃ x, R x y := by
  induction h with
  | nil => contradiction
  | @cons first other _ _ hfirst _ ih =>
    rcases List.mem_cons.mp hmem with rfl | hrest
    · exact ⟨first, hfirst⟩
    · exact ih hrest

namespace Session

/-- A clause whose last operator asked for the vectors within a radius stands in the query with the
parameter of its search name, and this parameter is the query vector of that operator exactly if
none of the later clauses gives other bytes to the same parameter. -/
theorem range_parameter_iff {calls : List Call} {request : Request}
    {front rest : List ClauseHistory} {c : ClauseHistory} {radius : Binary64} {vector : List Binary64}
    (hcompile : ((start schema storage).run calls).search.compile = .ok request)
    (hclauses : ((start schema storage).history calls {}).clauses = front ++ c :: rest)
    (hwithin : c.within? = some (radius, vector)) :
    ∃ field : Neighbours, c.fresh? schema storage = some (.neighbours field) ∧
      c.token schema storage =
        "[VECTOR_RANGE " ++ radius.token ++ " $" ++ rangeParameter (searchName c.path) ++ "]" ∧
      (request.parameters.get? (rangeParameter (searchName c.path)) =
          some (vectorBytes field.component vector) ↔
        ∀ bytes, boundBytes? schema storage (rangeParameter (searchName c.path)) rest =
          some bytes → bytes = vectorBytes field.component vector) := by
  have htells := (tells_start schema storage).run calls
  have hmem : c ∈ ((start schema storage).history calls {}).clauses := by
    rw [hclauses]
    simp
  obtain ⟨clause, hclause⟩ := exists_of_forall₂ htells.clauses hmem
  obtain ⟨field, hfield, htoken, hparameter⟩ := hclause.within hwithin
  have hparameters : request.parameters =
      ((start schema storage).history calls {}).parameters schema storage := by
    rw [htells.compile] at hcompile
    unfold History.compile at hcompile
    split at hcompile
    next => contradiction
    next => rw [← Except.ok.inj hcompile]
  refine ⟨field, hfield, htoken, ?_⟩
  rw [hparameters, History.get?_parameters, hclauses, boundBytes?_split hparameter]
  cases boundBytes? schema storage (rangeParameter (searchName c.path)) rest with
  | none => simp
  | some bytes => simp

/-! ### Pictures near two others -/

/-- A vector of one number. -/
def pictureField : Field :=
  .ofKind (.vector { algorithm := .flat 1024, component := .float32, dimension := 1,
                     metric := .euclidean, initialCap := none })

/-- Two pictures. -/
def gallerySchema : Schema where
  fields := [("cover", pictureField), ("page", pictureField)]
  references := []
  relations := []
  warnings := []

/-- One in double precision. -/
def one : Binary64 := .finite ⟨false, 4503599627370496, -52, by decide⟩

/-- Two in double precision. -/
def two : Binary64 := .finite ⟨false, 4503599627370496, -51, by decide⟩

/-- Two clauses, within one of the pictures one and two. -/
def nearBoth (first second : String) : List Call :=
  [.openClause first, .operate (.range one [one]),
    .andClause second, .operate (.range one [two])]

/-- The request of two clauses with these parameters. -/
def nearRequest (query : String) (parameters : Entries Bytes) : Request :=
  { query, dialect := some 2, parameters, sort := none, page := none }

/-- One in single precision, lowest byte first. -/
def oneBytes : Bytes := [0, 0, 128, 63]

/-- Two in single precision, lowest byte first. -/
def twoBytes : Bytes := [0, 0, 0, 64]

/-- On two fields each clause has its own query vector. -/
theorem range_parameter_iff_gallery :
    ((start gallerySchema .json).run (nearBoth "cover" "page")).search.compile =
        .ok (nearRequest
          "(@cover:[VECTOR_RANGE 1 $cover_range]) (@page:[VECTOR_RANGE 1 $page_range])"
          [("cover_range", oneBytes), ("page_range", twoBytes)]) ∧
      ((start gallerySchema .json).history (nearBoth "cover" "page") {}).clauses =
        [] ++ { path := "cover", operators := [.range one [one]] } ::
          [{ path := "page", operators := [.range one [two]] }] ∧
      Entries.get? [("cover_range", oneBytes), ("page_range", twoBytes)]
        (rangeParameter (searchName "cover")) = some (vectorBytes .float32 [one]) := by
  have hcompile : ((start gallerySchema .json).run (nearBoth "cover" "page")).search.compile =
      .ok (nearRequest
        "(@cover:[VECTOR_RANGE 1 $cover_range]) (@page:[VECTOR_RANGE 1 $page_range])"
        [("cover_range", oneBytes), ("page_range", twoBytes)]) := by decide
  have hclauses : ((start gallerySchema .json).history (nearBoth "cover" "page") {}).clauses =
      [] ++ { path := "cover", operators := [.range one [one]] } ::
        [{ path := "page", operators := [.range one [two]] }] := rfl
  obtain ⟨field, hfield, _, hiff⟩ := range_parameter_iff hcompile hclauses rfl
  have hcomponent : field.component = .float32 := by
    cases hfield
    rfl
  refine ⟨hcompile, hclauses, ?_⟩
  rw [hcomponent] at hiff
  apply hiff.mpr
  intro bytes hbytes
  have hnone : boundBytes? gallerySchema .json (rangeParameter (searchName "cover"))
      [{ path := "page", operators := [.range one [two]] }] = none := by decide
  rw [hnone] at hbytes
  contradiction

/-- On one field the second clause takes the parameter of the first, which then looks for what is
near the wrong picture. -/
theorem range_parameter_shared :
    ¬ ∀ (schema : Schema) (storage : Storage) (calls : List Call) (request : Request)
        (c : ClauseHistory) (field : Neighbours) (radius : Binary64) (vector : List Binary64),
      ((start schema storage).run calls).search.compile = .ok request →
      c ∈ ((start schema storage).history calls {}).clauses →
      c.within? = some (radius, vector) →
      c.fresh? schema storage = some (.neighbours field) →
      request.parameters.get? (rangeParameter (searchName c.path)) =
        some (vectorBytes field.component vector) := by
  intro h
  have hcompile : ((start gallerySchema .json).run (nearBoth "cover" "cover")).search.compile =
      .ok (nearRequest
        "(@cover:[VECTOR_RANGE 1 $cover_range]) (@cover:[VECTOR_RANGE 1 $cover_range])"
        [("cover_range", twoBytes)]) := by decide
  have hown := h gallerySchema .json (nearBoth "cover" "cover") _
    { path := "cover", operators := [.range one [one]] } { component := .float32, dimension := 1 }
    one [one] hcompile (List.mem_cons_self ..) rfl rfl
  have hdiffers : Entries.get? [("cover_range", twoBytes)] (rangeParameter (searchName "cover")) ≠
      some (vectorBytes .float32 [one]) := by decide
  exact hdiffers hown

end Session

end

end DocumentSchema.Query
