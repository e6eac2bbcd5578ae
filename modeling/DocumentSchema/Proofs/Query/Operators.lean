import DocumentSchema.Proofs.Query.Edit
import DocumentSchema.Query.Matcher
import Mathlib.Data.List.Basic

/-!
# What operators do to matchers

`Matcher.Accepts` lists what an operator makes of a matcher, one case for each family and each
operator the family has. An operator either does this or is refused, and a refused operator leaves
the matcher as it was (`Matcher.operate_allOrNothing`): every family checks all its values before it
writes the first of them. What follows from the list alone is proved from it: an accepted operator
completes its matcher and stays in the family, and only the last one on a vector counts.
-/

set_option autoImplicit false

namespace DocumentSchema.Query

open Edit

namespace TagClause

/-- A tag is the only one afterwards, or refused. -/
theorem setTo_allOrNothing (v : Value) (c : TagClause) :
    (setTo v).AllOrNothing c fun _ next =>
      ∃ token, c.token v = .ok token ∧ next = { c with tokens := [token] } := by
  unfold setTo
  apply AllOrNothing.get_bind
  exact AllOrNothing.check_write fun _ => on_modify _ c

/-- A tag is the last one afterwards, or refused. -/
theorem add_allOrNothing (v : Value) (c : TagClause) :
    (add v).AllOrNothing c fun _ next =>
      ∃ token, c.token v = .ok token ∧ next = { c with tokens := c.tokens ++ [token] } := by
  unfold add
  apply AllOrNothing.get_bind
  exact AllOrNothing.check_write fun _ => on_modify _ c

end TagClause

namespace Interval

/-- A lower bound takes the place of the one before, or is refused. -/
theorem setLower_allOrNothing (exclusive : Bool) (v : Value) (c : Interval) :
    (setLower exclusive v).AllOrNothing c fun _ next =>
      ∃ number, c.number v = .ok number ∧
        next = { c with lower := some ⟨exclusive, number⟩ } := by
  unfold setLower
  apply AllOrNothing.get_bind
  exact AllOrNothing.check_write fun _ => on_modify _ c

/-- An upper bound takes the place of the one before, or is refused. -/
theorem setUpper_allOrNothing (exclusive : Bool) (v : Value) (c : Interval) :
    (setUpper exclusive v).AllOrNothing c fun _ next =>
      ∃ number, c.number v = .ok number ∧
        next = { c with upper := some ⟨exclusive, number⟩ } := by
  unfold setUpper
  apply AllOrNothing.get_bind
  exact AllOrNothing.check_write fun _ => on_modify _ c

/-- The two writes come after both checks; between them nothing can stop. -/
theorem setBoth_allOrNothing (low high : Value) (c : Interval) :
    (setBoth low high).AllOrNothing c fun _ next =>
      ∃ lower upper, c.number low = .ok lower ∧ c.number high = .ok upper ∧
        next = { c with lower := some ⟨false, lower⟩, upper := some ⟨false, upper⟩ } := by
  unfold setBoth
  apply AllOrNothing.get_bind
  apply AllOrNothing.check_bind
  intro lower hlow
  apply AllOrNothing.get_bind
  apply AllOrNothing.check_bind
  intro upper hhigh
  have writes (f g : Interval → Interval) :
      (do modify f; modify g : Edit ValueFault Interval Unit).on c = (.ok (), g (f c)) := by
    rw [on_bind, on_modify]
    exact on_modify g (f c)
  apply AllOrNothing.success (writes _ _)
  exact ⟨lower, upper, hlow, hhigh, rfl⟩

end Interval

namespace Phrase

/-- A term is the only one afterwards, or refused. -/
theorem setTo_allOrNothing (v : Value) (c : Phrase) :
    (setTo v).AllOrNothing c fun _ next => ∃ term, Phrase.term v = .ok term ∧ next = ⟨[term]⟩ := by
  unfold setTo
  exact AllOrNothing.check_write fun _ => on_set _ c

/-- A term in quotation marks is the only one afterwards, or refused. -/
theorem setExact_allOrNothing (v : Value) (c : Phrase) :
    (setExact v).AllOrNothing c fun _ next =>
      ∃ term, Phrase.term v = .ok term ∧ next = ⟨["\"" ++ term ++ "\""]⟩ := by
  unfold setExact
  exact AllOrNothing.check_write fun _ => on_set _ c

/-- A term is the last one afterwards, or refused. -/
theorem add_allOrNothing (v : Value) (c : Phrase) :
    (add v).AllOrNothing c fun _ next =>
      ∃ term, Phrase.term v = .ok term ∧ next = ⟨c.terms ++ [term]⟩ := by
  unfold add
  exact AllOrNothing.check_write fun _ => on_modify _ c

/-- A phrase with terms has a text. -/
theorem text?_isSome {c : Phrase} (h : c.terms ≠ []) : c.text?.isSome = true := by
  unfold text?
  split
  next hnil => contradiction
  next => rfl
  next => rfl

end Phrase

namespace Neighbours

/-- Accepted components have the bytes of the vector. -/
theorem bytes_eq_ok {c : Neighbours} {vector : List Binary64} {bytes : Bytes}
    (h : c.bytes vector = .ok bytes) : bytes = vectorBytes c.component vector := by
  unfold Neighbours.bytes at h
  split at h
  · contradiction
  · split at h
    · contradiction
    · exact (Except.ok.inj h).symm

/-- A number of neighbours takes the place of what was asked before, or is refused. -/
theorem setNearest_allOrNothing (count : Nat) (vector : List Binary64) (c : Neighbours) :
    (setNearest count vector).AllOrNothing c fun _ next =>
      ∃ bytes, c.bytes vector = .ok bytes ∧
        next = { c with neighbourhood := some (.nearest count bytes) } := by
  unfold setNearest
  apply AllOrNothing.check_bind
  intro _ _
  apply AllOrNothing.get_bind
  exact AllOrNothing.check_write fun _ => on_modify _ c

/-- A radius takes the place of what was asked before, or is refused. -/
theorem setWithin_allOrNothing (radius : Binary64) (vector : List Binary64) (c : Neighbours) :
    (setWithin radius vector).AllOrNothing c fun _ next =>
      ∃ bytes, c.bytes vector = .ok bytes ∧
        next = { c with neighbourhood := some (.within radius bytes) } := by
  unfold setWithin
  apply AllOrNothing.check_bind
  intro _ _
  apply AllOrNothing.get_bind
  exact AllOrNothing.check_write fun _ => on_modify _ c

end Neighbours

namespace Matcher

/-- A circle takes the place of the one before, or is refused. -/
theorem setCircle_allOrNothing (found : Except ValueFault Circle) (c : Option Circle) :
    (setCircle found).AllOrNothing c fun _ next =>
      ∃ circle, found = .ok circle ∧ next = some circle := by
  unfold setCircle
  exact AllOrNothing.check_write fun _ => on_set _ c

/-- What an operator makes of a matcher that accepts it. -/
inductive Accepts : Operator → Matcher → Matcher → Prop
  | tagEq {v : Value} {c : TagClause} {token : String} (h : c.token v = .ok token) :
      Accepts (.eq v) (.tag c) (.tag { c with tokens := [token] })
  | tagOr {v : Value} {c : TagClause} {token : String} (h : c.token v = .ok token) :
      Accepts (.or v) (.tag c) (.tag { c with tokens := c.tokens ++ [token] })
  | intervalEq {v : Value} {c : Interval} {number : String} (h : c.number v = .ok number) :
      Accepts (.eq v) (.interval c)
        (.interval { c with lower := some ⟨false, number⟩, upper := some ⟨false, number⟩ })
  | intervalGt {v : Value} {c : Interval} {number : String} (h : c.number v = .ok number) :
      Accepts (.gt v) (.interval c) (.interval { c with lower := some ⟨true, number⟩ })
  | intervalGte {v : Value} {c : Interval} {number : String} (h : c.number v = .ok number) :
      Accepts (.gte v) (.interval c) (.interval { c with lower := some ⟨false, number⟩ })
  | intervalLt {v : Value} {c : Interval} {number : String} (h : c.number v = .ok number) :
      Accepts (.lt v) (.interval c) (.interval { c with upper := some ⟨true, number⟩ })
  | intervalLte {v : Value} {c : Interval} {number : String} (h : c.number v = .ok number) :
      Accepts (.lte v) (.interval c) (.interval { c with upper := some ⟨false, number⟩ })
  | intervalBetween {low high : Value} {c : Interval} {lower upper : String}
      (hlow : c.number low = .ok lower) (hhigh : c.number high = .ok upper) :
      Accepts (.between low high) (.interval c)
        (.interval { c with lower := some ⟨false, lower⟩, upper := some ⟨false, upper⟩ })
  | phraseEq {v : Value} {c : Phrase} {term : String} (h : Phrase.term v = .ok term) :
      Accepts (.eq v) (.phrase c) (.phrase ⟨[term]⟩)
  | phraseExact {v : Value} {c : Phrase} {term : String} (h : Phrase.term v = .ok term) :
      Accepts (.exact v) (.phrase c) (.phrase ⟨["\"" ++ term ++ "\""]⟩)
  | phraseOr {v : Value} {c : Phrase} {term : String} (h : Phrase.term v = .ok term) :
      Accepts (.or v) (.phrase c) (.phrase ⟨c.terms ++ [term]⟩)
  | geoEq {v : Value} {c : Option Circle} {circle : Circle} (h : circleAround v = .ok circle) :
      Accepts (.eq v) (.geo c) (.geo (some circle))
  | geoWithin {c : Option Circle} {asked circle : Circle} (h : validCircle asked = .ok circle) :
      Accepts (.within asked) (.geo c) (.geo (some circle))
  | nearest {count : Nat} {vector : List Binary64} {c : Neighbours} :
      Accepts (.knn count vector) (.neighbours c) (.neighbours { c with
        neighbourhood := some (.nearest count (vectorBytes c.component vector)) })
  | within {radius : Binary64} {vector : List Binary64} {c : Neighbours} :
      Accepts (.range radius vector) (.neighbours c) (.neighbours { c with
        neighbourhood := some (.within radius (vectorBytes c.component vector)) })

/-- A family changes its own part of the matcher, so what holds of the part carries over. -/
theorem change_allOrNothing {α : Type} {wrap : α → Matcher} {own : α}
    {edit : Edit ValueFault α Unit} {part : Unit → α → Prop} {post : Matcher → Prop}
    (h : edit.AllOrNothing own part) (hwrap : ∀ t, part () t → post (wrap t)) :
    (change wrap own edit).AllOrNothing (wrap own) fun _ next => post next := by
  unfold change
  apply AllOrNothing.weaken (AllOrNothing.part h rfl)
  rintro _ _ ⟨t, ht, rfl⟩
  exact hwrap t ht

/-- An operator does what `Accepts` says, or is refused and leaves the matcher as it was. -/
theorem operate_allOrNothing (operator : Operator) (m : Matcher) :
    (operate operator).AllOrNothing m fun _ next => Accepts operator m next := by
  unfold operate
  apply AllOrNothing.get_bind
  split
  next v c =>
    apply change_allOrNothing (TagClause.setTo_allOrNothing v c)
    rintro _ ⟨token, h, rfl⟩
    exact .tagEq h
  next v c =>
    apply change_allOrNothing (Interval.setBoth_allOrNothing v v c)
    rintro _ ⟨lower, upper, hlow, hhigh, rfl⟩
    -- both sides are rendered from one value, so they are one text
    have hsame : upper = lower := Except.ok.inj (hhigh.symm.trans hlow)
    rw [hsame]
    exact .intervalEq hlow
  next v c =>
    apply change_allOrNothing (Phrase.setTo_allOrNothing v c)
    rintro _ ⟨term, h, rfl⟩
    exact .phraseEq h
  next v c =>
    apply change_allOrNothing (setCircle_allOrNothing (circleAround v) c)
    rintro _ ⟨circle, h, rfl⟩
    exact .geoEq h
  next v c =>
    apply change_allOrNothing (TagClause.add_allOrNothing v c)
    rintro _ ⟨token, h, rfl⟩
    exact .tagOr h
  next v c =>
    apply change_allOrNothing (Phrase.add_allOrNothing v c)
    rintro _ ⟨term, h, rfl⟩
    exact .phraseOr h
  next v c =>
    apply change_allOrNothing (Interval.setLower_allOrNothing true v c)
    rintro _ ⟨number, h, rfl⟩
    exact .intervalGt h
  next v c =>
    apply change_allOrNothing (Interval.setLower_allOrNothing false v c)
    rintro _ ⟨number, h, rfl⟩
    exact .intervalGte h
  next v c =>
    apply change_allOrNothing (Interval.setUpper_allOrNothing true v c)
    rintro _ ⟨number, h, rfl⟩
    exact .intervalLt h
  next v c =>
    apply change_allOrNothing (Interval.setUpper_allOrNothing false v c)
    rintro _ ⟨number, h, rfl⟩
    exact .intervalLte h
  next low high c =>
    apply change_allOrNothing (Interval.setBoth_allOrNothing low high c)
    rintro _ ⟨lower, upper, hlow, hhigh, rfl⟩
    exact .intervalBetween hlow hhigh
  next v c =>
    apply change_allOrNothing (Phrase.setExact_allOrNothing v c)
    rintro _ ⟨term, h, rfl⟩
    exact .phraseExact h
  next asked c =>
    apply change_allOrNothing (setCircle_allOrNothing (validCircle asked) c)
    rintro _ ⟨circle, h, rfl⟩
    exact .geoWithin h
  next count vector c =>
    apply change_allOrNothing (Neighbours.setNearest_allOrNothing count vector c)
    rintro _ ⟨bytes, h, rfl⟩
    rw [Neighbours.bytes_eq_ok h]
    exact .nearest
  next radius vector c =>
    apply change_allOrNothing (Neighbours.setWithin_allOrNothing radius vector c)
    rintro _ ⟨bytes, h, rfl⟩
    rw [Neighbours.bytes_eq_ok h]
    exact .within
  next => exact AllOrNothing.stopped (on_throw _ _)

/-! ## One operator after the other -/

/-- A matcher that accepted an operator is complete. -/
theorem Accepts.isComplete {operator : Operator} {m next : Matcher}
    (h : Accepts operator m next) : next.isComplete = true := by
  cases h with
  | tagOr => simp [Matcher.isComplete, text?, TagClause.text?]
  | phraseOr => exact Phrase.text?_isSome (by simp)
  | intervalLt => simp [Matcher.isComplete, text?, Interval.text?]
  | intervalLte => simp [Matcher.isComplete, text?, Interval.text?]
  | _ => rfl

/-- An operator leaves a matcher in its family. -/
theorem Accepts.family {operator : Operator} {m next : Matcher} (h : Accepts operator m next) :
    next.family = m.family := by
  cases h <;> rfl

end Matcher

/-- The operators that say which vectors a clause looks for. -/
def Operator.isVector : Operator → Bool
  | .knn _ _ => true
  | .range _ _ => true
  | _ => false

/-- What an operator for nearest neighbours asks for. -/
def Operator.nearest? : Operator → Option (Nat × List Binary64)
  | .knn count vector => some (count, vector)
  | _ => none

/-- What an operator for a radius asks for. -/
def Operator.within? : Operator → Option (Binary64 × List Binary64)
  | .range radius vector => some (radius, vector)
  | _ => none

/-- What an operator on a vector has a clause look for, given the type of the components. -/
def Operator.neighbourhood? (component : Component) : Operator → Option Neighbourhood
  | .knn count vector => some (.nearest count (vectorBytes component vector))
  | .range radius vector => some (.within radius (vectorBytes component vector))
  | _ => none

/-- The last of the operators that says which vectors a clause looks for. -/
def lastVector? (operators : List Operator) : Option Operator :=
  (operators.filter Operator.isVector).getLast?

/-- The last vector operator is the last operator, if that is one. -/
theorem lastVector?_concat (operators : List Operator) (operator : Operator) :
    lastVector? (operators ++ [operator]) =
      if operator.isVector then some operator else lastVector? operators := by
  unfold lastVector?
  rw [List.filter_append]
  cases h : operator.isVector <;> simp [h]

namespace Matcher

/-- Vector operators are accepted by the matchers of vectors only, and no others are. -/
theorem Accepts.isVector_iff {operator : Operator} {m next : Matcher}
    (h : Accepts operator m next) : operator.isVector = true ↔ m.family = .vector := by
  cases h <;> simp [Operator.isVector, Matcher.family]

/-- Operators that succeed one after the other, from a fresh matcher to the last. -/
inductive Run (fresh : Matcher) : List Operator → Matcher → Prop
  | nil : Run fresh [] fresh
  | concat {operators : List Operator} {operator : Operator} {m next : Matcher}
      (h : Run fresh operators m) (hon : (operate operator).on m = (.ok (), next)) :
      Run fresh (operators ++ [operator]) next

/-- The matcher after operators, refused ones included. -/
def after (fresh : Matcher) (operators : List Operator) : Matcher :=
  operators.foldl (fun m operator => ((operate operator).on m).2) fresh

/-- Operators lead on from where those before them lead. -/
theorem after_append (m : Matcher) (front back : List Operator) :
    m.after (front ++ back) = (m.after front).after back := List.foldl_append

/-- The last operator leads on from where those before it lead. -/
theorem after_concat (m : Matcher) (operators : List Operator) (operator : Operator) :
    m.after (operators ++ [operator]) = ((operate operator).on (m.after operators)).2 :=
  after_append m operators [operator]

/-- The bytes of a query vector in the format of the field. -/
def bytes (m : Matcher) (vector : List Binary64) : Bytes :=
  match m with
  | .neighbours c => vectorBytes c.component vector
  | _ => []

namespace Run

variable {fresh m : Matcher} {operators : List Operator}

/-- A run ends where its operators lead. -/
theorem after_eq (h : Run fresh operators m) : fresh.after operators = m := by
  induction h with
  | nil => rfl
  | concat _ hon ih => rw [after_concat, ih, hon]

/-- A run ends in the family that it started in. -/
theorem family (h : Run fresh operators m) : m.family = fresh.family := by
  induction h with
  | nil => rfl
  | concat _ hon ih => rw [((operate_allOrNothing _ _).of_ok hon).family, ih]

/-- A matcher is complete as soon as one operator has succeeded. -/
theorem isComplete (h : Run fresh operators m) (hfresh : fresh.isComplete = false) :
    m.isComplete = !operators.isEmpty := by
  cases h with
  | nil => simpa using hfresh
  | concat _ hon => simp [((operate_allOrNothing _ _).of_ok hon).isComplete]

/-- The clauses on vectors are those with an operator on a vector. -/
theorem lastVector?_isSome (h : Run fresh operators m) (hne : operators ≠ []) :
    (lastVector? operators).isSome = decide (fresh.family = .vector) := by
  induction h with
  | nil => contradiction
  | @concat operators operator m next hrun hon ih =>
    have hvector := ((operate_allOrNothing _ _).of_ok hon).isVector_iff
    rw [hrun.family] at hvector
    rw [lastVector?_concat]
    by_cases hfamily : fresh.family = .vector
    · simp [hvector.mpr hfamily, hfamily]
    · have hnot : operator.isVector = false := by simpa using mt hvector.mp hfamily
      simp only [hnot, hfamily, decide_false, Bool.false_eq_true, if_false]
      cases hrun with
      | nil => rfl
      | concat _ _ => simpa [hfamily] using ih (by simp)

/-- A run outside of vectors has no vector operator. -/
theorem lastVector?_eq_none (h : Run fresh operators m) (hfamily : fresh.family ≠ .vector) :
    lastVector? operators = none := by
  by_cases hnil : operators = []
  · rw [hnil]
    rfl
  · have hsome := h.lastVector?_isSome hnil
    simpa [hfamily] using hsome

/-- Of the operators on a vector only the last one counts. -/
theorem neighbours {fresh : Neighbours} (h : Run (.neighbours fresh) operators m)
    (hfresh : fresh.neighbourhood = none) :
    m = .neighbours { fresh with
      neighbourhood :=
        (lastVector? operators).bind (Operator.neighbourhood? fresh.component) } := by
  induction h with
  | nil =>
    have hnone : lastVector? [] = none := rfl
    rw [hnone, Option.bind_none, ← hfresh]
  | @concat operators operator m next _ hon ih =>
    have haccepts := (operate_allOrNothing _ _).of_ok hon
    rw [ih] at haccepts
    rw [lastVector?_concat]
    cases haccepts <;> rfl

/-- What holds of the clauses without vectors and of those on vectors holds of a run. -/
theorem vector_cases (h : Run fresh operators m) (hfresh : fresh.isComplete = false) :
    (m.family ≠ .vector ∧ lastVector? operators = none) ∨
      ∃ c : Neighbours, fresh = .neighbours c ∧ m = .neighbours { c with
        neighbourhood := (lastVector? operators).bind (Operator.neighbourhood? c.component) } := by
  by_cases hfamily : fresh.family = .vector
  · cases fresh with
    | neighbours c =>
      have hnone : c.neighbourhood = none := by simpa [Matcher.isComplete] using hfresh
      exact .inr ⟨c, rfl, h.neighbours hnone⟩
    | _ => contradiction
  · have hm : m.family ≠ .vector := by rwa [h.family]
    exact .inl ⟨hm, h.lastVector?_eq_none hfamily⟩

/-- What is read off nothing but the vectors that a matcher looks for is what the last operator on a
vector asks for. -/
theorem read_eq {α : Type} {read : Matcher → Option α} {asked : Operator → Option α}
    (h : Run fresh operators m) (hfresh : fresh.isComplete = false)
    (hother : ∀ m : Matcher, m.family ≠ .vector → read m = none)
    (hnone : ∀ c : Neighbours, read (.neighbours { c with neighbourhood := none }) = none)
    (hlast : ∀ (c : Neighbours) (operator : Operator), fresh = .neighbours c →
      read (.neighbours { c with neighbourhood := operator.neighbourhood? c.component }) =
        asked operator) :
    read m = (lastVector? operators).bind asked := by
  rcases h.vector_cases hfresh with ⟨hfamily, hno⟩ | ⟨c, hc, rfl⟩
  · rw [hno]
    exact hother m hfamily
  · cases lastVector? operators with
    | none => exact hnone c
    | some operator => exact hlast c operator hc

/-- The nearest neighbours are those that the last operator on a vector asks for. -/
theorem nearest?_eq (h : Run fresh operators m) (hfresh : fresh.isComplete = false) :
    m.nearest? = ((lastVector? operators).bind Operator.nearest?).map fun found =>
      (found.1, fresh.bytes found.2) := by
  rw [Option.map_bind]
  apply h.read_eq hfresh
  · intro m hfamily
    cases m <;> first | rfl | exact absurd rfl hfamily
  · exact fun _ => rfl
  · rintro c operator rfl
    cases operator <;> rfl

/-- The vector of a radius is that of the last operator on a vector, if this asks for a radius. -/
theorem rangeVector?_eq (h : Run fresh operators m) (hfresh : fresh.isComplete = false) :
    m.rangeVector? = ((lastVector? operators).bind Operator.within?).map fun found =>
      fresh.bytes found.2 := by
  rw [Option.map_bind]
  apply h.read_eq hfresh
  · intro m hfamily
    cases m <;> first | rfl | exact absurd rfl hfamily
  · exact fun _ => rfl
  · rintro c operator rfl
    cases operator <;> rfl

end Run

/-- A complete matcher has a text, except for nearest neighbours. -/
theorem text?_isSome (m : Matcher) (searchName : String) :
    (m.text? searchName).isSome = (m.isComplete && m.nearest?.isNone) := by
  cases m with
  | neighbours c =>
    rcases c with ⟨component, dimension, _ | ⟨_ | _⟩⟩ <;> rfl
  | _ => simp [Matcher.text?, Matcher.isComplete, Matcher.nearest?]

end Matcher

end DocumentSchema.Query
