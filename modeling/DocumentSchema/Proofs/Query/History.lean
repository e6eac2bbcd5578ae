import DocumentSchema.Proofs.Query.Calls
import Mathlib.Data.List.Forall2

/-!
# Histories of sessions

A history is what can be told of the calls on a session by who made them and saw what they came to:
for each clause the path it was opened with, the operators that succeeded on it and how often it was
negated, and what was last asked of the results. Calls that were refused or found no clause leave no
mark. `Session.Tells` is the invariant that ties a session to its history: each clause is at its
path, has the parity of its negations, and its matcher is where the operators lead from a fresh one.
-/

set_option autoImplicit false

namespace DocumentSchema.Query

/-- What happened to one clause. -/
structure ClauseHistory where
  path : String
  operators : List Operator := []
  negations : Nat := 0

/-- What happened in a session. -/
structure History where
  clauses : List ClauseHistory := []
  dialect : Option UInt32 := none
  sort : Option (String × SortOrder) := none
  page : Option Page := none

namespace History

/-- Adds to the history of the clause opened last. -/
def onLast (f : ClauseHistory → ClauseHistory) (h : History) : History :=
  { h with clauses := h.clauses.dropLast ++ (h.clauses.getLast?.map f).toList }

/-- A history with one more call and what it came to. -/
def note (h : History) : Call → Outcome → History
  | .openClause path, .done => { h with clauses := h.clauses ++ [{ path }] }
  | .andClause path, .done => { h with clauses := h.clauses ++ [{ path }] }
  | .operate operator, .done => h.onLast fun c => { c with operators := c.operators ++ [operator] }
  | .not, .done => h.onLast fun c => { c with negations := c.negations + 1 }
  | .dialect dialect, .done => { h with dialect := some dialect }
  | .page page, .done => { h with page := some page }
  | .sortBy path order, .done => { h with sort := some (searchName path, order) }
  | _, _ => h

/-- What happens to the last clause leaves the histories in front. -/
theorem onLast_concat {h : History} {front : List ClauseHistory} {c : ClauseHistory}
    (hclauses : h.clauses = front ++ [c]) (f : ClauseHistory → ClauseHistory) :
    h.onLast f = { h with clauses := front ++ [f c] } := by
  unfold onLast
  rw [hclauses, List.dropLast_concat, List.getLast?_concat]
  rfl

/-- A refused call leaves no mark. -/
theorem note_refused (h : History) (call : Call) (error : QueryError) :
    h.note call (.refused error) = h := by
  cases call <;> rfl

/-- A call that found no clause leaves no mark. -/
theorem note_skipped (h : History) (call : Call) : h.note call .skipped = h := by
  cases call <;> rfl

end History

/-- The history of calls on a session, added to what happened before. -/
def Session.history (session : Session) : List Call → History → History
  | [], h => h
  | call :: calls, h => (session.step call).1.history calls (h.note call (session.step call).2)

/-- An odd number of negations negates. -/
def ClauseHistory.isNegated (c : ClauseHistory) : Bool := c.negations % 2 = 1

section

variable {schema : Schema} {storage : Storage}

/-- A clause is as its history says. -/
structure Clause.Tells (schema : Schema) (storage : Storage) (clause : Clause)
    (c : ClauseHistory) : Prop where
  path : clause.path = c.path
  searchName : clause.searchName = Query.searchName c.path
  negated : clause.negated = c.isNegated
  run : ∃ fresh, resolve schema storage c.path = .ok (clause.kind, fresh) ∧
    Matcher.Run fresh c.operators clause.matcher

namespace Clause.Tells

variable {clause : Clause} {c : ClauseHistory}

/-- A clause that was just opened has the history of its path alone. -/
theorem opened {path : String} {kind : KindName} {fresh : Matcher}
    (h : resolve schema storage path = .ok (kind, fresh)) :
    Clause.Tells schema storage
      { path, searchName := Query.searchName path, kind, negated := false, matcher := fresh }
      { path } where
  path := rfl
  searchName := rfl
  negated := rfl
  run := ⟨fresh, h, .nil⟩

/-- A clause after an operator has that operator last in its history. -/
theorem operated (h : clause.Tells schema storage c) {operator : Operator} {matcher : Matcher}
    (hon : (Matcher.operate operator).on clause.matcher = (.ok (), matcher)) :
    Clause.Tells schema storage { clause with matcher }
      { c with operators := c.operators ++ [operator] } where
  path := h.path
  searchName := h.searchName
  negated := h.negated
  run := by
    obtain ⟨fresh, hresolve, hrun⟩ := h.run
    exact ⟨fresh, hresolve, hrun.concat hon⟩

/-- A negated clause has one negation more in its history. -/
theorem negate (h : clause.Tells schema storage c) :
    clause.negate.Tells schema storage { c with negations := c.negations + 1 } where
  path := h.path
  searchName := h.searchName
  negated := by
    have hparity : (c.negations + 1) % 2 = 1 ↔ ¬ c.negations % 2 = 1 := by omega
    unfold Clause.negate
    rw [h.negated]
    unfold ClauseHistory.isNegated
    rw [← decide_not]
    exact decide_eq_decide.mpr hparity.symm
  run := h.run

end Clause.Tells

/-- Lists with related members in the same places, the first of which has a last member. -/
theorem forall₂_concat_left {α β : Type} {R : α → β → Prop} {front : List α} {last : α}
    {others : List β} (h : List.Forall₂ R (front ++ [last]) others) :
    ∃ rest b, others = rest ++ [b] ∧ List.Forall₂ R front rest ∧ R last b := by
  induction front generalizing others with
  | nil =>
    obtain ⟨b, _, hlast, hnil, rfl⟩ := List.forall₂_cons_left_iff.mp h
    rw [List.forall₂_nil_left_iff.mp hnil]
    exact ⟨[], b, rfl, .nil, hlast⟩
  | cons first front ih =>
    obtain ⟨a, tail, hfirst, htail, rfl⟩ := List.forall₂_cons_left_iff.mp h
    obtain ⟨rest, b, rfl, hrest, hlast⟩ := ih htail
    exact ⟨a :: rest, b, rfl, .cons hfirst hrest, hlast⟩

/-- Related lists stay related with related members at their ends. -/
theorem forall₂_concat {α β : Type} {R : α → β → Prop} {front : List α} {rest : List β} {a : α}
    {b : β} (h : List.Forall₂ R front rest) (hlast : R a b) :
    List.Forall₂ R (front ++ [a]) (rest ++ [b]) :=
  List.rel_append h (.cons hlast .nil)

namespace Session

/-- A session is as its history says. -/
structure Tells (schema : Schema) (storage : Storage) (session : Session) (h : History) :
    Prop where
  schema_eq : session.search.schema = schema
  storage_eq : session.search.storage = storage
  clauses : List.Forall₂ (Clause.Tells schema storage) session.search.clauses h.clauses
  dialect : session.search.dialect = h.dialect
  sort : session.search.sort = h.sort
  page : session.search.page = h.page
  opened : session.isOpen = true → session.search.clauses ≠ []

/-- A session that starts has an empty history. -/
theorem tells_start (schema : Schema) (storage : Storage) :
    (start schema storage).Tells schema storage {} where
  schema_eq := rfl
  storage_eq := rfl
  clauses := .nil
  dialect := rfl
  sort := rfl
  page := rfl
  opened := fun h => absurd h Bool.false_ne_true

namespace Tells

variable {session next : Session} {h : History}

/-- Other clauses that the other history tells, and nothing else new. -/
theorem replaceClauses (ht : session.Tells schema storage h) {clauses : List Clause}
    {told : List ClauseHistory} (hclauses : List.Forall₂ (Clause.Tells schema storage) clauses told)
    (hne : clauses ≠ []) :
    Tells schema storage ⟨{ session.search with clauses }, true⟩ { h with clauses := told } where
  schema_eq := ht.schema_eq
  storage_eq := ht.storage_eq
  clauses := hclauses
  dialect := ht.dialect
  sort := ht.sort
  page := ht.page
  opened := fun _ => hne

/-- Closing the clause leaves no mark. -/
theorem closed (ht : session.Tells schema storage h) :
    Tells schema storage { session with isOpen := false } h :=
  { ht with opened := fun h => absurd h Bool.false_ne_true }

/-- What a step does to a session, `note` does to its history. -/
theorem step {call : Call} {outcome : Outcome} (ht : session.Tells schema storage h)
    (hstep : Step session call next outcome) : next.Tells schema storage (h.note call outcome) := by
  cases hstep with
  | skipped =>
    rw [History.note_skipped]
    exact ht
  | refused error =>
    rw [History.note_refused]
    exact ht.closed
  | @opened _ path kind fresh hcall hresolve =>
    rw [ht.schema_eq, ht.storage_eq] at hresolve
    have hclauses := forall₂_concat ht.clauses (Clause.Tells.opened hresolve)
    rcases hcall with rfl | rfl
    · exact ht.replaceClauses hclauses (by simp)
    · exact ht.replaceClauses hclauses (by simp)
  | operated hopen hclauses hon =>
    have htold := ht.clauses
    rw [hclauses] at htold
    obtain ⟨rest, c, hhistory, hfront, hlast⟩ := forall₂_concat_left htold
    show Tells schema storage _ (h.onLast _)
    rw [History.onLast_concat hhistory]
    exact ht.replaceClauses (forall₂_concat hfront (hlast.operated hon)) (by simp)
  | negated hopen hclauses =>
    have htold := ht.clauses
    rw [hclauses] at htold
    obtain ⟨rest, c, hhistory, hfront, hlast⟩ := forall₂_concat_left htold
    show Tells schema storage _ (h.onLast _)
    rw [History.onLast_concat hhistory]
    exact ht.replaceClauses (forall₂_concat hfront hlast.negate) (by simp)
  | nothing hcall hopen hclauses => exact absurd hclauses (ht.opened hopen)
  | dialect dialect => exact { ht.closed with dialect := rfl }
  | page page => exact { ht.closed with page := rfl }
  | sorted path order => exact { ht.closed with sort := rfl }
  | inspected => exact ht.closed

/-- Every run of a session is as its history says. -/
theorem run (ht : session.Tells schema storage h) (calls : List Call) :
    (session.run calls).Tells schema storage (session.history calls h) := by
  induction calls generalizing session h with
  | nil => exact ht
  | cons call calls ih => exact ih (ht.step (step_cases session call))

end Tells

end Session

end

end DocumentSchema.Query
