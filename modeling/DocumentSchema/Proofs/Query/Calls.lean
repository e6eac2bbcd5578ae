import DocumentSchema.Proofs.Outcome
import DocumentSchema.Proofs.Query.Operators
import DocumentSchema.Query.Session
import Mathlib.Data.List.Basic

/-!
# What calls do to sessions

`Session.Step` lists what a call can come to: it finds no open clause, it is refused, or it does the
one thing it is for. Every call of a session is such a step (`Session.step_cases`), so that what
holds of sessions is proved over the list. A refused call closes the clause and leaves the search as
it was, whatever it was refused for.
-/

set_option autoImplicit false

namespace DocumentSchema.Query

open Edit

/-- An operator changes the matcher of a clause and nothing else, or is refused. -/
theorem Clause.operate_allOrNothing (operator : Operator) (clause : Clause) :
    (Clause.operate operator).AllOrNothing clause fun _ next =>
      ∃ matcher, (Matcher.operate operator).on clause.matcher = (.ok (), matcher) ∧
        next = { clause with matcher } := by
  unfold Clause.operate
  apply AllOrNothing.get_bind
  have hmatcher := (Matcher.operate_allOrNothing operator clause.matcher).self
  apply AllOrNothing.weaken (AllOrNothing.part hmatcher rfl)
  rintro _ _ ⟨matcher, h, rfl⟩
  exact ⟨matcher, h, rfl⟩

namespace Search

/-- A clause that is opened is the last one, with a fresh matcher for its path. -/
theorem addClause_eq_ok {path : String} {s next : Search} (h : s.addClause path = .ok next) :
    ∃ kind matcher, resolve s.schema s.storage path = .ok (kind, matcher) ∧
      next = { s with clauses := s.clauses ++
        [{ path, searchName := searchName path, kind, negated := false, matcher }] } := by
  unfold addClause at h
  obtain ⟨⟨kind, matcher⟩, hresolve, hnext⟩ := Outcome.bind_eq_ok.mp h
  exact ⟨kind, matcher, hresolve, (Except.ok.inj hnext).symm⟩

/-- A search that can be sorted by a path is, and nothing else of it changes. -/
theorem sortBy_eq_ok {path : String} {order : SortOrder} {s next : Search}
    (h : s.sortBy path order = .ok next) :
    next = { s with sort := some (searchName path, order) } := by
  unfold sortBy at h
  obtain ⟨⟨kind, matcher⟩, _, hnext⟩ := Outcome.bind_eq_ok.mp h
  simp only at hnext
  split at hnext
  · contradiction
  · exact (Except.ok.inj hnext).symm

/-- Setting the last clause leaves those in front. -/
theorem setLast_concat {s : Search} {front : List Clause} {last : Clause}
    (h : s.clauses = front ++ [last]) (clause : Clause) :
    s.setLast clause = { s with clauses := front ++ [clause] } := by
  unfold setLast
  rw [h, List.dropLast_concat]

/-- Setting the last clause to itself changes nothing. -/
theorem setLast_self {s : Search} {front : List Clause} {last : Clause}
    (h : s.clauses = front ++ [last]) : s.setLast last = s := by
  rw [setLast_concat h, ← h]

/-- Without a clause an operator does nothing; otherwise it changes the last clause only. -/
theorem operate_allOrNothing (operator : Operator) (s : Search) :
    (operate operator).AllOrNothing s fun _ next =>
      s.clauses = [] ∧ next = s ∨
        ∃ front clause matcher, s.clauses = front ++ [clause] ∧
          (Matcher.operate operator).on clause.matcher = (.ok (), matcher) ∧
          next = { s with clauses := front ++ [{ clause with matcher }] } := by
  unfold operate
  apply AllOrNothing.get_bind
  split
  next hnone =>
    apply AllOrNothing.success (on_pure _ _)
    exact .inl ⟨List.getLast?_eq_none_iff.mp hnone, rfl⟩
  next clause hlast =>
    obtain ⟨front, hclauses⟩ := List.getLast?_eq_some_iff.mp hlast
    have hclause := Clause.operate_allOrNothing operator clause
    refine AllOrNothing.weaken (AllOrNothing.part hclause (setLast_self hclauses)) ?_
    rintro _ _ ⟨_, ⟨matcher, h, rfl⟩, rfl⟩
    exact .inr ⟨front, clause, matcher, hclauses, h, setLast_concat hclauses _⟩

/-- Without clauses there is nothing to negate. -/
theorem negate_nil {s : Search} (h : s.clauses = []) : s.negate = s := by
  unfold negate
  rw [h]
  rfl

/-- Negating turns the last clause and leaves those in front. -/
theorem negate_concat {s : Search} {front : List Clause} {clause : Clause}
    (h : s.clauses = front ++ [clause]) :
    s.negate = { s with clauses := front ++ [clause.negate] } := by
  unfold negate
  rw [h, List.getLast?_concat]
  exact setLast_concat h clause.negate

end Search

namespace Session

/-- What a call can come to. -/
inductive Step (session : Session) : Call → Session → Outcome → Prop
  | skipped {call : Call} (h : session.isOpen = false) : Step session call session .skipped
  | refused {call : Call} (error : QueryError) :
      Step session call { session with isOpen := false } (.refused error)
  | opened {call : Call} {path : String} {kind : KindName} {matcher : Matcher}
      (hcall : call = .openClause path ∨ call = .andClause path)
      (h : resolve session.search.schema session.search.storage path = .ok (kind, matcher)) :
      Step session call
        ⟨{ session.search with clauses := session.search.clauses ++
          [{ path, searchName := searchName path, kind, negated := false, matcher }] }, true⟩ .done
  | operated {operator : Operator} {front : List Clause} {clause : Clause} {matcher : Matcher}
      (hopen : session.isOpen = true) (hclauses : session.search.clauses = front ++ [clause])
      (h : (Matcher.operate operator).on clause.matcher = (.ok (), matcher)) :
      Step session (.operate operator)
        ⟨{ session.search with clauses := front ++ [{ clause with matcher }] }, true⟩ .done
  | negated {front : List Clause} {clause : Clause}
      (hopen : session.isOpen = true) (hclauses : session.search.clauses = front ++ [clause]) :
      Step session .not
        ⟨{ session.search with clauses := front ++ [clause.negate] }, true⟩ .done
  /-- A clause can be open only where there is one; this is no step of a session that was begun. -/
  | nothing {call : Call} (hcall : call = .not ∨ ∃ operator, call = .operate operator)
      (hopen : session.isOpen = true) (hclauses : session.search.clauses = []) :
      Step session call session .done
  | dialect (dialect : UInt32) :
      Step session (.dialect dialect) ⟨session.search.setDialect dialect, false⟩ .done
  | page (page : Page) : Step session (.page page) ⟨session.search.setPage page, false⟩ .done
  | sorted (path : String) (order : SortOrder) :
      Step session (.sortBy path order)
        ⟨{ session.search with sort := some (searchName path, order) }, false⟩ .done
  | inspected : Step session .inspect ⟨session.search, false⟩ .done

/-- A change of the search that leaves no trace when it stops makes a step that is refused or
done. -/
theorem after_step {session : Session} {call : Call} {isOpen : Bool}
    {edit : Edit QueryError Search Unit} {post : Search → Prop}
    (h : edit.AllOrNothing session.search fun _ next => post next)
    (hdone : ∀ next, post next → Step session call ⟨next, isOpen⟩ .done) :
    Step session call (session.after isOpen edit).1 (session.after isOpen edit).2 := by
  unfold after
  rcases hon : edit.on session.search with ⟨outcome, search⟩
  cases outcome with
  | ok => exact hdone search (h.of_ok hon)
  | error e =>
    have hsame : search = session.search := h.of_error hon
    rw [hsame]
    exact .refused e

/-- An edit that is done or refused as a whole is a step of an open session. -/
theorem onClause_step {session : Session} {call : Call} {edit : Edit QueryError Search Unit}
    {post : Search → Prop} (h : edit.AllOrNothing session.search fun _ next => post next)
    (hdone : session.isOpen = true → ∀ next, post next → Step session call ⟨next, true⟩ .done) :
    Step session call (session.onClause edit).1 (session.onClause edit).2 := by
  unfold onClause
  split
  next hopen => exact after_step h (hdone hopen)
  next hopen => exact .skipped (Bool.eq_false_iff.mpr hopen)

/-- A clause that can be opened is a step that leaves the session open. -/
theorem open_step {session : Session} {call : Call} {path : String}
    (hcall : call = .openClause path ∨ call = .andClause path) (next : Search)
    (h : session.search.addClause path = .ok next) : Step session call ⟨next, true⟩ .done := by
  obtain ⟨kind, matcher, hresolve, rfl⟩ := Search.addClause_eq_ok h
  exact .opened hcall hresolve

/-- A change that cannot fail is done. -/
theorem modify_allOrNothing (f : Search → Search) (s : Search) :
    (modify f : Edit QueryError Search Unit).AllOrNothing s fun _ next => next = f s :=
  AllOrNothing.success (on_modify f s) rfl

/-- Every call of a session is one of the listed steps. -/
theorem step_cases (session : Session) (call : Call) :
    Step session call (session.step call).1 (session.step call).2 := by
  cases call with
  | openClause path =>
    exact after_step (AllOrNothing.replace _ _) (open_step (.inl rfl))
  | andClause path =>
    exact onClause_step (AllOrNothing.replace _ _) fun _ => open_step (.inr rfl)
  | operate operator =>
    apply onClause_step (Search.operate_allOrNothing operator session.search)
    rintro hopen _ (⟨hnil, rfl⟩ | ⟨front, clause, matcher, hclauses, h, rfl⟩)
    · have hsame : (⟨session.search, true⟩ : Session) = session := by rw [← hopen]
      rw [hsame]
      exact .nothing (.inr ⟨operator, rfl⟩) hopen hnil
    · exact .operated hopen hclauses h
  | not =>
    apply onClause_step (modify_allOrNothing Search.negate session.search)
    rintro hopen _ rfl
    rcases List.eq_nil_or_concat' session.search.clauses with hnil | ⟨front, clause, hclauses⟩
    · have hsame : (⟨session.search, true⟩ : Session) = session := by rw [← hopen]
      rw [Search.negate_nil hnil, hsame]
      exact .nothing (.inl rfl) hopen hnil
    · rw [Search.negate_concat hclauses]
      exact .negated hopen hclauses
  | dialect dialect =>
    apply after_step (modify_allOrNothing (Search.setDialect dialect) session.search)
    rintro _ rfl
    exact .dialect dialect
  | page page =>
    apply after_step (modify_allOrNothing (Search.setPage page) session.search)
    rintro _ rfl
    exact .page page
  | sortBy path order =>
    apply after_step (AllOrNothing.replace (Search.sortBy path order) session.search)
    intro next h
    rw [Search.sortBy_eq_ok h]
    exact .sorted path order
  | inspect => exact .inspected

/-- A refused call leaves the search as it was, and closes its last clause. -/
theorem step_refused {session : Session} {call : Call} {error : QueryError}
    (h : (session.step call).2 = .refused error) :
    (session.step call).1 = { session with isOpen := false } := by
  have hstep := step_cases session call
  revert h hstep
  generalize (session.step call).1 = next
  generalize (session.step call).2 = outcome
  rintro rfl hstep
  cases hstep with
  | refused => rfl

/-- An operator that the last clause accepts changes its matcher and succeeds. -/
theorem operate_done {session : Session} {operator : Operator} {front : List Clause}
    {clause : Clause} {matcher : Matcher} (hopen : session.isOpen = true)
    (hclauses : session.search.clauses = front ++ [clause])
    (hon : (Matcher.operate operator).on clause.matcher = (.ok (), matcher)) :
    session.step (.operate operator) =
      (⟨{ session.search with clauses := front ++ [{ clause with matcher }] }, true⟩, .done) := by
  have hclause : (Clause.operate operator).on clause = (.ok (), { clause with matcher }) := by
    unfold Clause.operate
    rw [on_get_bind, on_part, hon]
    rfl
  have hlast : session.search.clauses.getLast? = some clause := by
    rw [hclauses, List.getLast?_concat]
  have hsearch : (Search.operate operator).on session.search =
      (.ok (), { session.search with clauses := front ++ [{ clause with matcher }] }) := by
    unfold Search.operate
    rw [on_get_bind, hlast]
    simp only
    rw [on_part, hclause, Search.setLast_concat hclauses]
    rfl
  show session.onClause (Search.operate operator) = _
  unfold onClause after
  rw [if_pos hopen, hsearch]

/-- An operator on an open session changes the matcher of the last clause. -/
theorem step_operate {session : Session} {operator : Operator} {front : List Clause}
    {clause : Clause} {matcher : Matcher} (hopen : session.isOpen = true)
    (hclauses : session.search.clauses = front ++ [clause])
    (hon : (Matcher.operate operator).on clause.matcher = (.ok (), matcher)) :
    (session.step (.operate operator)).1 =
      ⟨{ session.search with clauses := front ++ [{ clause with matcher }] }, true⟩ := by
  rw [operate_done hopen hclauses hon]

/-- Opening a clause puts it after all others and leaves the session open. -/
theorem step_openClause {session : Session} {path : String} {kind : KindName} {matcher : Matcher}
    (h : resolve session.search.schema session.search.storage path = .ok (kind, matcher)) :
    (session.step (.openClause path)).1 =
      ⟨{ session.search with clauses := session.search.clauses ++
        [{ path, searchName := searchName path, kind, negated := false, matcher }] }, true⟩ := by
  have hadd : session.search.addClause path = .ok { session.search with
      clauses := session.search.clauses ++
        [{ path, searchName := searchName path, kind, negated := false, matcher }] } := by
    unfold Search.addClause
    rw [h]
    rfl
  show (session.after true (Edit.replace (Search.addClause path))).1 = _
  unfold after
  rw [on_replace, hadd]

/-- Whatever a call is refused for, the search then has as many clauses as before and compiles to
the same. -/
theorem refused_compile {session : Session} {call : Call} {error : QueryError}
    (h : (session.step call).2 = .refused error) :
    (session.step call).1.search.clauses.length = session.search.clauses.length ∧
      (session.step call).1.search.compile = session.search.compile := by
  have hnext : (session.step call).1 = { session with isOpen := false } := step_refused h
  rw [hnext]
  exact ⟨rfl, rfl⟩

/-! ### A price from thirty up -/

/-- Things with prices. -/
def shelfSchema : Schema where
  fields := [("price", .ofKind (.number none))]
  references := []
  relations := []
  warnings := []

/-- A session with a lower bound on prices. -/
def shelfSession : Session :=
  (start shelfSchema .json).run
    [.openClause "price", .operate (.gte (.bigInt ⟨30, by decide, by decide⟩))]

/-- Both bounds, the second of which is no number. -/
def brokenRange : Operator := .between (.bigInt ⟨1, by decide, by decide⟩) (.string "many")

/-- The first bound is fine by itself, and is still not kept. -/
theorem refused_compile_shelf :
    (shelfSession.step (.operate brokenRange)).2 =
        .refused (.invalidValue "price" (.unexpected .finiteNumber .string)) ∧
      (shelfSession.step (.operate brokenRange)).1.search.clauses.length = 1 ∧
      (shelfSession.step (.operate brokenRange)).1.search.compile =
        .ok { query := "(@price:[30 +inf])", dialect := none, parameters := [], sort := none,
              page := none } := by
  have hrefused : (shelfSession.step (.operate brokenRange)).2 =
      .refused (.invalidValue "price" (.unexpected .finiteNumber .string)) := by decide
  have hkept := refused_compile hrefused
  exact ⟨hrefused, hkept.1, hkept.2.trans (by decide)⟩

end Session

end DocumentSchema.Query
