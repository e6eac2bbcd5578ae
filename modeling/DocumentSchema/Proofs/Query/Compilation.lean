import DocumentSchema.Proofs.Query.History

/-!
# Compiling a history

The request of a session is a function of its history. This module states that function on histories
alone, in the terms of those who made the calls, and proves that compiling a session after any run
of calls gives it (`Session.compile_run`). Which clause refuses to compile, and which is the one on
nearest neighbours, is read off its operators; a matcher is consulted only for the text of a clause
and for the bytes of a query vector.
-/

set_option autoImplicit false

namespace DocumentSchema.Query

/-! ## What a history compiles to -/

namespace ClauseHistory

/-- How many nearest neighbours of which vector, if the last operator on a vector asks for them. -/
def nearest? (c : ClauseHistory) : Option (Nat × List Binary64) :=
  (lastVector? c.operators).bind Operator.nearest?

/-- The radius around a vector, if the last operator on a vector asks for one. -/
def within? (c : ClauseHistory) : Option (Binary64 × List Binary64) :=
  (lastVector? c.operators).bind Operator.within?

/-- Why a clause with this history cannot be compiled. -/
def fault? (c : ClauseHistory) : Option QueryError :=
  if c.operators.isEmpty then some (.incompleteClause c.path)
  else if c.nearest?.isSome && c.isNegated then
    some (.invalidValue c.path .negatedNeighbours)
  else none

section

variable (schema : Schema) (storage : Storage)

/-- The matcher of the clause before its first operator. -/
def fresh? (c : ClauseHistory) : Option Matcher :=
  (resolve schema storage c.path).toOption.map Prod.snd

/-- The text that the operators give the clause. -/
def token (c : ClauseHistory) : String :=
  (((c.fresh? schema storage).bind fun fresh =>
    (fresh.after c.operators).text? (searchName c.path))).getD ""

/-- The text of the clause around its token. -/
def text (c : ClauseHistory) : String :=
  if c.isNegated then "(-(@" ++ searchName c.path ++ ":" ++ c.token schema storage ++ "))"
  else "(@" ++ searchName c.path ++ ":" ++ c.token schema storage ++ ")"

/-- The bytes of a query vector in the format of the field of the clause. -/
def bytes (c : ClauseHistory) (vector : List Binary64) : Bytes :=
  ((c.fresh? schema storage).map fun fresh => fresh.bytes vector).getD []

/-- The parameter of a clause on the vectors within a radius. -/
def parameter? (c : ClauseHistory) : Option (String × Bytes) :=
  c.within?.map fun found =>
    (rangeParameter (searchName c.path), c.bytes schema storage found.2)

end

end ClauseHistory

namespace History

section

variable (schema : Schema) (storage : Storage)

/-- The texts of the clauses, without those on nearest neighbours. -/
def chain (h : History) : List String :=
  (h.clauses.filter fun c => c.nearest?.isNone).map (ClauseHistory.text schema storage)

/-- The field, the number and the bytes of the last clause on nearest neighbours. -/
def nearest? (h : History) : Option (String × Nat × Bytes) :=
  (h.clauses.filterMap fun c => c.nearest?.map fun found =>
    (searchName c.path, found.1, c.bytes schema storage found.2)).getLast?

/-- The query that a history amounts to: its texts, and the neighbours asked for last. -/
def query (h : History) : String :=
  let chain := h.chain schema storage
  match h.nearest? schema storage with
  | none => if chain = [] then "*" else String.intercalate " " chain
  | some (field, count, _) =>
    (if chain = [] then "*"
      else if 2 ≤ chain.length then "(" ++ String.intercalate " " chain ++ ")"
      else String.intercalate " " chain) ++
      "=>[KNN " ++ Decimal.natText count ++ " @" ++ field ++ " $BLOB]"

/-- The parameters that a history amounts to: those of ranges, and the vector of the neighbours
asked for. -/
def parameters (h : History) : Entries Bytes :=
  let ranges := Entries.ofList (h.clauses.filterMap (ClauseHistory.parameter? schema storage))
  match h.nearest? schema storage with
  | none => ranges
  | some (_, _, bytes) => ranges.insert "BLOB" bytes

/-- The dialect that was asked for, raised for an operator on a vector. -/
def requestDialect (h : History) : Option UInt32 :=
  if h.clauses.any fun c => (lastVector? c.operators).isSome then
    some (max (h.dialect.getD vectorDialect) vectorDialect)
  else h.dialect

/-- The request of a history, or the first fault of one of its clauses. -/
def compile (h : History) : Except QueryError Request :=
  match h.clauses.findSome? ClauseHistory.fault? with
  | some error => .error error
  | none => .ok {
      query := h.query schema storage
      dialect := h.requestDialect
      parameters := h.parameters schema storage
      sort := h.sort
      page := h.page }

end

end History

/-! ## Clause by clause -/

/-- A fresh matcher is not complete. -/
theorem Matcher.ofKind?_isComplete {storage : Storage} {kind : Kind} {fresh : Matcher}
    (h : Matcher.ofKind? storage kind = some fresh) : fresh.isComplete = false := by
  cases kind with
  | array element separator =>
    cases element with
    | object fields => cases h
    | scalar kind =>
      cases storage with
      | hash => cases h; rfl
      | json => cases h; cases kind <;> rfl
  | tuple positions => cases h
  | object fields => cases h
  | _ => cases h; rfl

/-- Resolving follows the segments of the path and asks for the matcher of the place. -/
theorem resolve_eq_ok {schema : Schema} {storage : Storage} {path : String} {kind : KindName}
    {fresh : Matcher} (h : resolve schema storage path = .ok (kind, fresh)) :
    ∃ place, Place.follow path (.level schema.fields) (segments path) = .ok place ∧
      (storage = .hash → (segments path).length = 1) ∧
      place.matcher path storage = .ok (kind, fresh) := by
  unfold resolve at h
  split at h
  next => contradiction
  next first others hsegments =>
    rw [hsegments]
    split at h
    · contradiction
    · split at h
      · contradiction
      · obtain ⟨place, hfollow, hrest⟩ := Outcome.bind_eq_ok.mp h
        split at hrest
        · contradiction
        · rename_i hnested
          refine ⟨place, hfollow, ?_, hrest⟩
          intro hhash
          by_contra hlength
          apply hnested
          exact ⟨hhash, fun hnil => hlength (by rw [hnil]; rfl)⟩

/-- A clause starts without a value. -/
theorem resolve_isComplete {schema : Schema} {storage : Storage} {path : String} {kind : KindName}
    {fresh : Matcher} (h : resolve schema storage path = .ok (kind, fresh)) :
    fresh.isComplete = false := by
  obtain ⟨place, _, _, hmatcher⟩ := resolve_eq_ok h
  cases place with
  | level fields => cases hmatcher
  | position scalar => cases hmatcher; cases scalar <;> rfl
  | field fieldKind =>
    cases hkind : Matcher.ofKind? storage fieldKind with
    | none => simp [Place.matcher, hkind] at hmatcher
    | some m =>
      simp only [Place.matcher, hkind, Except.ok.injEq, Prod.mk.injEq] at hmatcher
      rw [← hmatcher.2]
      exact Matcher.ofKind?_isComplete hkind

namespace Clause.Tells

variable {schema : Schema} {storage : Storage} {clause : Clause} {c : ClauseHistory}

/-- The matcher of a clause is what its operators make of the fresh one. -/
theorem exists_run (h : clause.Tells schema storage c) :
    ∃ fresh, c.fresh? schema storage = some fresh ∧ fresh.isComplete = false ∧
      Matcher.Run fresh c.operators clause.matcher := by
  obtain ⟨fresh, hresolve, hrun⟩ := h.run
  refine ⟨fresh, ?_, resolve_isComplete hresolve, hrun⟩
  unfold ClauseHistory.fresh?
  rw [hresolve]
  rfl

/-- A clause is complete exactly if some operator succeeded on it. -/
theorem isComplete (h : clause.Tells schema storage c) :
    clause.matcher.isComplete = !c.operators.isEmpty := by
  obtain ⟨fresh, _, hfresh, hrun⟩ := h.exists_run
  exact hrun.isComplete hfresh

/-- A clause is for the neighbours that its history tells of. -/
theorem nearest?_eq (h : clause.Tells schema storage c) :
    clause.matcher.nearest? =
      c.nearest?.map fun found => (found.1, c.bytes schema storage found.2) := by
  obtain ⟨fresh, hfresh?, hfresh, hrun⟩ := h.exists_run
  rw [hrun.nearest?_eq hfresh]
  unfold ClauseHistory.nearest? ClauseHistory.bytes
  rw [hfresh?]
  rfl

/-- A clause brings the parameter that its history tells of. -/
theorem parameter?_eq (h : clause.Tells schema storage c) :
    clause.parameter? = c.parameter? schema storage := by
  obtain ⟨fresh, hfresh?, hfresh, hrun⟩ := h.exists_run
  unfold Clause.parameter? ClauseHistory.parameter? ClauseHistory.within? ClauseHistory.bytes
  rw [hrun.rangeVector?_eq hfresh, hfresh?, h.searchName, Option.map_map]
  rfl

/-- A clause is refused for the fault of its history. -/
theorem check_eq (h : clause.Tells schema storage c) :
    clause.check = match c.fault? with
      | some error => .error error
      | none => .ok () := by
  have hnearest : clause.matcher.nearest?.isSome = c.nearest?.isSome := by
    rw [h.nearest?_eq, Option.isSome_map]
  unfold Clause.check ClauseHistory.fault?
  rw [h.isComplete, hnearest, h.negated, h.path, Bool.not_not]
  split
  next => rfl
  next =>
    split
    next => rfl
    next => rfl

/-- A clause without a fault has the text of its history, unless it is on nearest neighbours. -/
theorem text?_eq (h : clause.Tells schema storage c) (hfault : c.fault? = none) :
    clause.text? = if c.nearest?.isNone then some (c.text schema storage) else none := by
  obtain ⟨fresh, hfresh?, _, hrun⟩ := h.exists_run
  have hcomplete : clause.matcher.isComplete = true := by
    rw [h.isComplete]
    unfold ClauseHistory.fault? at hfault
    split at hfault
    next => contradiction
    next hempty => simpa using hempty
  have hsome := clause.matcher.text?_isSome clause.searchName
  rw [hcomplete, h.nearest?_eq, Option.isNone_map, Bool.true_and] at hsome
  have htoken : c.token schema storage = (clause.matcher.text? clause.searchName).getD "" := by
    unfold ClauseHistory.token
    rw [hfresh?, Option.bind_some, hrun.after_eq, h.searchName]
  unfold Clause.text?
  cases htext : clause.matcher.text? clause.searchName with
  | none =>
    rw [htext] at hsome
    rw [← hsome]
    rfl
  | some token =>
    rw [htext, Option.getD_some] at htoken
    rw [htext] at hsome
    rw [← hsome, Option.map_some]
    unfold ClauseHistory.text
    rw [htoken, h.negated, h.searchName]
    rfl

end Clause.Tells

/-! ## All clauses -/

/-- Related lists pick the same from their members if related members do. -/
theorem filterMap_eq_of_forall₂ {α β γ : Type} {R : α → β → Prop} {f : α → Option γ}
    {g : β → Option γ} {xs : List α} {ys : List β} (h : List.Forall₂ R xs ys)
    (hsame : ∀ x y, y ∈ ys → R x y → f x = g y) : xs.filterMap f = ys.filterMap g := by
  induction h with
  | nil => rfl
  | @cons x y xs ys hxy _ ih =>
    have hhead : f x = g y := hsame x y (by simp) hxy
    have htail := ih fun a b hb => hsame a b (by simp [hb])
    rw [List.filterMap_cons, List.filterMap_cons, hhead, htail]

/-- Mapping what passes a filter is one pass over the list. -/
theorem map_filter_eq_filterMap {α β : Type} (p : α → Bool) (f : α → β) (xs : List α) :
    (xs.filter p).map f = xs.filterMap fun x => if p x then some (f x) else none := by
  induction xs with
  | nil => rfl
  | cons x xs ih =>
    rw [List.filter_cons, List.filterMap_cons, ← ih]
    cases p x <;> rfl

/-- A chain is a star without texts, and in parentheses from two texts on. -/
theorem guarded_eq (chain : List String) :
    Search.guarded chain =
      if chain = [] then "*"
      else if 2 ≤ chain.length then "(" ++ String.intercalate " " chain ++ ")"
      else String.intercalate " " chain := by
  rcases chain with _ | ⟨first, _ | ⟨second, rest⟩⟩ <;> rfl

namespace History

variable {schema : Schema} {storage : Storage} {clauses : List Clause}
  {told : List ClauseHistory}

/-- The first clause that is refused is the first with a fault. -/
theorem forM_check (h : List.Forall₂ (Clause.Tells schema storage) clauses told) :
    clauses.forM Clause.check = match told.findSome? ClauseHistory.fault? with
      | some error => .error error
      | none => .ok () := by
  induction h with
  | nil => rfl
  | @cons clause c clauses told hclause _ ih =>
    show (clause.check >>= fun _ => clauses.forM Clause.check) = _
    rw [hclause.check_eq, List.findSome?_cons]
    cases c.fault? with
    | some error => rfl
    | none => exact ih

/-- The clauses that are not for neighbours have the texts that their histories tell of. -/
theorem filterMap_text? (h : List.Forall₂ (Clause.Tells schema storage) clauses told)
    (hfault : told.findSome? ClauseHistory.fault? = none) :
    clauses.filterMap Clause.text? =
      (told.filter fun c => c.nearest?.isNone).map (ClauseHistory.text schema storage) := by
  rw [map_filter_eq_filterMap]
  apply filterMap_eq_of_forall₂ h
  intro clause c hmem htells
  exact htells.text?_eq (List.findSome?_eq_none_iff.mp hfault c hmem)

/-- The clauses for neighbours are for those that their histories tell of. -/
theorem filterMap_nearest? (h : List.Forall₂ (Clause.Tells schema storage) clauses told) :
    (clauses.filterMap fun c =>
        c.matcher.nearest?.map fun found => (c.searchName, found.1, found.2)) =
      told.filterMap fun c => c.nearest?.map fun found =>
        (searchName c.path, found.1, c.bytes schema storage found.2) := by
  apply filterMap_eq_of_forall₂ h
  intro clause c _ htells
  rw [htells.nearest?_eq, htells.searchName, Option.map_map]
  rfl

/-- The clauses bring the parameters that their histories tell of. -/
theorem filterMap_parameter? (h : List.Forall₂ (Clause.Tells schema storage) clauses told) :
    clauses.filterMap Clause.parameter? =
      told.filterMap (ClauseHistory.parameter? schema storage) := by
  apply filterMap_eq_of_forall₂ h
  intro clause c _ htells
  exact htells.parameter?_eq

/-- A clause without a fault is on vectors exactly if one of its operators is. -/
theorem any_vector (h : List.Forall₂ (Clause.Tells schema storage) clauses told)
    (hfault : told.findSome? ClauseHistory.fault? = none) :
    (clauses.any fun c => c.matcher.family = .vector) =
      told.any fun c => (lastVector? c.operators).isSome := by
  induction h with
  | nil => rfl
  | @cons clause c clauses told hclause _ ih =>
    rw [List.findSome?_cons] at hfault
    cases hc : c.fault? with
    | some error => simp [hc] at hfault
    | none =>
      rw [hc] at hfault
      have hne : c.operators ≠ [] := by
        intro hnil
        simp [ClauseHistory.fault?, hnil] at hc
      obtain ⟨fresh, _, _, hrun⟩ := hclause.exists_run
      rw [List.any_cons, List.any_cons, ih hfault, hrun.lastVector?_isSome hne, hrun.family]

end History

namespace Session

/-- A session compiles to what its history compiles to. -/
theorem Tells.compile {schema : Schema} {storage : Storage} {session : Session} {h : History}
    (ht : session.Tells schema storage h) :
    session.search.compile = h.compile schema storage := by
  unfold Search.compile History.compile
  rw [History.forM_check ht.clauses]
  cases hfault : h.clauses.findSome? ClauseHistory.fault? with
  | some error => rfl
  | none =>
    have hchain : session.search.chain = h.chain schema storage :=
      History.filterMap_text? ht.clauses hfault
    have hnearest : session.search.nearest? = h.nearest? schema storage :=
      congrArg List.getLast? (History.filterMap_nearest? ht.clauses)
    have hquery : session.search.query = h.query schema storage := by
      unfold Search.query History.query
      rw [hchain, hnearest]
      cases h.nearest? schema storage with
      | none => simp only [List.isEmpty_iff]
      | some found =>
        simp only [guarded_eq, String.append_assoc]
        rfl
    have hparameters : session.search.parameters = h.parameters schema storage := by
      unfold Search.parameters History.parameters
      rw [hnearest, History.filterMap_parameter? ht.clauses]
      rfl
    have hdialect : session.search.requestDialect = h.requestDialect := by
      unfold Search.requestDialect History.requestDialect
      rw [History.any_vector ht.clauses hfault, ht.dialect]
    rw [hquery, hparameters, hdialect, ht.sort, ht.page]
    rfl

/-- After any run of calls, refused ones included, a session compiles to what the history of the run
compiles to: the first fault of a clause, or the request in which the clauses stand in the order of
their calls, with the last one on nearest neighbours behind them. -/
theorem compile_run (schema : Schema) (storage : Storage) (calls : List Call) :
    ((start schema storage).run calls).search.compile =
      ((start schema storage).history calls {}).compile schema storage :=
  ((tells_start schema storage).run calls).compile

end Session

end DocumentSchema.Query
