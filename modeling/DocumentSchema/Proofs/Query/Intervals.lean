import DocumentSchema.Proofs.Query.Operators
import DocumentSchema.Proofs.Outcome
import Mathlib.Data.List.Induction

/-!
# Ranges after any calls

Six operators bound a range: some on one side, some on both. `Interval.call` says what each of them
makes of a range, and with it what a call comes to is one equation (`operate_interval`): the values
are read before either side is written, and only the sides that the operator speaks of are written.
Whether the values can be read does not depend on the bounds, so every call is accepted or refused by
itself (`accepted_interval`). On each side the last accepted call that speaks of it counts, and the
order of calls on different sides does not matter (`interval_sides`).
-/

set_option autoImplicit false

namespace DocumentSchema.Query

open Outcome (bind_eq_ok map_eq_ok pure_eq_ok)

/-! ## The sides an operator speaks of -/

/-- The lower side an operator asks for: whether the bound itself is excluded, and its value. -/
def Operator.lower? : Operator → Option (Bool × Value)
  | .eq v => some (false, v)
  | .gt v => some (true, v)
  | .gte v => some (false, v)
  | .between low _ => some (false, low)
  | _ => none

/-- The upper side an operator asks for. -/
def Operator.upper? : Operator → Option (Bool × Value)
  | .eq v => some (false, v)
  | .lt v => some (true, v)
  | .lte v => some (false, v)
  | .between _ high => some (false, high)
  | _ => none

/-- The operators of a range. -/
def Operator.isRange (operator : Operator) : Bool :=
  operator.lower?.isSome || operator.upper?.isSome

namespace Interval

/-- A side without a bound is infinite, and a bound that is itself excluded follows a parenthesis. -/
theorem sideText_eq (unbounded : String) (side : Option Bound) :
    sideText unbounded side =
      side.elim unbounded fun b => (if b.exclusive then "(" else "") ++ b.number := by
  cases side with
  | none => rfl
  | some b =>
    rw [sideText, Bound.text, Option.elim_some]
    split
    · rfl
    · exact (String.empty_append).symm

/-- The bound that is asked for on a side, if one is; a value may be refused. -/
def bound (dates : Bool) : Option (Bool × Value) → Except ValueFault (Option Bound)
  | none => .ok none
  | some (exclusive, v) =>
    (({ dates } : Interval).number v).map fun number => some ⟨exclusive, number⟩

/-- A side that is asked for has a bound, unless its value is refused. -/
theorem isSome_bound {dates : Bool} {side : Option (Bool × Value)} {found : Option Bound}
    (h : bound dates side = .ok found) (hside : side.isSome = true) : found.isSome = true := by
  cases side with
  | none => contradiction
  | some side =>
    rw [bound, map_eq_ok] at h
    obtain ⟨number, _, rfl⟩ := h
    rfl

/-- Writes the bounds that are there and leaves the other sides as they are. -/
def put (clause : Interval) (lower upper : Option Bound) : Interval :=
  { clause with lower := lower <|> clause.lower, upper := upper <|> clause.upper }

/-- What an operator makes of a range. -/
def call (clause : Interval) (operator : Operator) : Except ValueFault Interval := do
  let lower ← bound clause.dates operator.lower?
  let upper ← bound clause.dates operator.upper?
  return clause.put lower upper

/-- The range after a call; a refused call leaves it as it is. -/
def next (clause : Interval) (operator : Operator) : Interval :=
  (clause.call operator).toOption.getD clause

section

variable {clause : Interval} {operator : Operator}

/-- An accepted call has a number for each side that it sets. -/
theorem call_eq_ok {found : Interval} (h : clause.call operator = .ok found) :
    ∃ lower upper, bound clause.dates operator.lower? = .ok lower ∧
      bound clause.dates operator.upper? = .ok upper ∧ found = clause.put lower upper := by
  obtain ⟨lower, hlower, h⟩ := bind_eq_ok.1 h
  obtain ⟨upper, hupper, h⟩ := bind_eq_ok.1 h
  exact ⟨lower, upper, hlower, hupper, (pure_eq_ok.1 h).symm⟩

/-- The bounds of a range have no part in whether a call is refused. -/
theorem isOk_call (clause other : Interval) (operator : Operator)
    (h : clause.dates = other.dates) :
    (clause.call operator).isOk = (other.call operator).isOk := by
  unfold call
  rw [h]
  cases bound other.dates operator.lower? with
  | error e => rfl
  | ok lower => cases bound other.dates operator.upper? <;> rfl

/-- No call changes whether an interval is of dates. -/
theorem next_dates (clause : Interval) (operator : Operator) :
    (clause.next operator).dates = clause.dates := by
  unfold next
  cases h : clause.call operator with
  | error e => rfl
  | ok found =>
    obtain ⟨lower, upper, _, _, rfl⟩ := call_eq_ok h
    rfl

/-- A call that speaks of no upper side and one that speaks of no lower side may be swapped. -/
theorem next_comm (clause : Interval) {a b : Operator} (ha : a.upper? = none)
    (hb : b.lower? = none) : (clause.next a).next b = (clause.next b).next a := by
  have lowerOnly (c : Interval) : c.next a =
      ((bound c.dates a.lower?).map (c.put · none)).toOption.getD c := by
    unfold next call
    rw [ha]
    cases bound c.dates a.lower? <;> rfl
  have upperOnly (c : Interval) : c.next b =
      ((bound c.dates b.upper?).map (c.put none ·)).toOption.getD c := by
    unfold next call
    rw [hb]
    cases bound c.dates b.upper? <;> rfl
  rw [upperOnly (clause.next a), lowerOnly (clause.next b), next_dates, next_dates,
    lowerOnly clause, upperOnly clause]
  cases bound clause.dates a.lower? <;> cases bound clause.dates b.upper? <;> rfl

end

end Interval

/-! ## One call -/

open Edit

namespace Interval

variable {operator : Operator} {exclusive : Bool} {v low high : Value}

/-- A side that is set is at the number of its value. -/
theorem bound_some (clause : Interval) (exclusive : Bool) (v : Value) :
    bound clause.dates (some (exclusive, v)) =
      (clause.number v).map fun number => some ⟨exclusive, number⟩ := rfl

/-- Setting the lower side is the call of an operator with that side alone. -/
theorem on_setLower (hlower : operator.lower? = some (exclusive, v))
    (hupper : operator.upper? = none) (clause : Interval) :
    (setLower exclusive v).on clause =
      ((clause.call operator).map fun _ => (), clause.next operator) := by
  unfold setLower next call
  rw [on_get_bind, on_check_bind, hlower, hupper, bound_some]
  cases clause.number v <;> rfl

/-- Setting the upper side is the call of an operator with that side alone. -/
theorem on_setUpper (hlower : operator.lower? = none)
    (hupper : operator.upper? = some (exclusive, v)) (clause : Interval) :
    (setUpper exclusive v).on clause =
      ((clause.call operator).map fun _ => (), clause.next operator) := by
  unfold setUpper next call
  rw [on_get_bind, on_check_bind, hlower, hupper, bound_some]
  cases clause.number v <;> rfl

/-- Setting both sides is the call of an operator with both, neither of them excluded. -/
theorem on_setBoth (hlower : operator.lower? = some (false, low))
    (hupper : operator.upper? = some (false, high)) (clause : Interval) :
    (setBoth low high).on clause =
      ((clause.call operator).map fun _ => (), clause.next operator) := by
  unfold setBoth next call
  rw [on_get_bind, on_check_bind, hlower, hupper, bound_some, bound_some]
  cases clause.number low with
  | error e => rfl
  | ok lower =>
    simp only
    rw [on_get_bind, on_check_bind]
    cases clause.number high <;> rfl

/-- A change of a range that does what an operator of ranges asks for. -/
theorem on_change {edit : Edit ValueFault Interval Unit} {clause : Interval}
    (hedit : edit.on clause = ((clause.call operator).map fun _ => (), clause.next operator))
    (hrange : operator.isRange = true) :
    (Matcher.change .interval clause edit).on (.interval clause) =
      (if operator.isRange then ((clause.call operator).map fun _ => ()).mapError .invalid
        else .error .unsupported,
        .interval (clause.next operator)) := by
  unfold Matcher.change
  rw [on_part, hedit, if_pos hrange]

end Interval

/-- What a call on a range comes to, and what it leaves behind. -/
theorem operate_interval (operator : Operator) (clause : Interval) :
    (Matcher.operate operator).on (.interval clause) =
      (if operator.isRange then ((clause.call operator).map fun _ => ()).mapError .invalid
        else .error .unsupported,
        .interval (clause.next operator)) := by
  unfold Matcher.operate
  rw [on_get_bind]
  cases operator with
  | eq v => exact Interval.on_change (Interval.on_setBoth rfl rfl clause) rfl
  | gt v => exact Interval.on_change (Interval.on_setLower rfl rfl clause) rfl
  | gte v => exact Interval.on_change (Interval.on_setLower rfl rfl clause) rfl
  | lt v => exact Interval.on_change (Interval.on_setUpper rfl rfl clause) rfl
  | lte v => exact Interval.on_change (Interval.on_setUpper rfl rfl clause) rfl
  | between low high => exact Interval.on_change (Interval.on_setBoth rfl rfl clause) rfl
  | _ => rfl

/-! ## One call after the other -/

namespace Matcher

/-- Whether a matcher accepts a call. -/
def accepts (m : Matcher) (operator : Operator) : Bool := ((operate operator).on m).1.isOk

/-- The calls that are accepted when operators are called one after the other. -/
def accepted (m : Matcher) : List Operator → List Operator
  | [] => []
  | operator :: rest =>
    let later := accepted ((operate operator).on m).2 rest
    if m.accepts operator then operator :: later else later

end Matcher

/-- Each call on a range is accepted or refused whatever was called before it. -/
theorem accepts_interval (clause : Interval) (operator : Operator) :
    (Matcher.interval clause).accepts operator =
      (operator.isRange && (clause.call operator).isOk) := by
  unfold Matcher.accepts
  rw [operate_interval]
  cases operator.isRange <;> cases clause.call operator <;> rfl

/-- Which calls an interval accepts only depends on whether it is of dates. -/
theorem accepts_interval_of_dates (clause other : Interval) (h : clause.dates = other.dates)
    (operator : Operator) :
    (Matcher.interval clause).accepts operator = (Matcher.interval other).accepts operator := by
  rw [accepts_interval, accepts_interval, Interval.isOk_call clause other operator h]

/-- The calls that an interval accepts one after the other are those that it accepts at all. -/
theorem accepted_interval (clause : Interval) (operators : List Operator) :
    (Matcher.interval clause).accepted operators =
      operators.filter (Matcher.interval clause).accepts := by
  induction operators generalizing clause with
  | nil => rfl
  | cons operator rest ih =>
    have hsame : (Matcher.interval (clause.next operator)).accepts =
        (Matcher.interval clause).accepts :=
      funext (accepts_interval_of_dates _ _ (clause.next_dates operator))
    have hlater : ((Matcher.operate operator).on (.interval clause)).2.accepted rest =
        rest.filter (Matcher.interval clause).accepts := by
      rw [operate_interval, ih, hsame]
    rw [Matcher.accepted, hlater, List.filter_cons]

/-- A refused call leaves a range as it is. -/
theorem Interval.next_of_refused {clause : Interval} {operator : Operator}
    (h : (Matcher.interval clause).accepts operator = false) : clause.next operator = clause := by
  rw [accepts_interval, Bool.and_eq_false_iff] at h
  rcases h with hother | hrefused
  · -- an operator of another family speaks of no side
    obtain ⟨hlower, hupper⟩ := Bool.or_eq_false_iff.1 hother
    unfold next call
    rw [Option.isSome_eq_false_iff, Option.isNone_iff_eq_none] at hlower hupper
    rw [hlower, hupper]
    rfl
  · unfold next
    cases hcall : clause.call operator with
    | error e => rfl
    | ok found =>
      rw [hcall] at hrefused
      cases hrefused

/-- An accepted call writes the sides it speaks of, of which there is one. -/
theorem Interval.next_of_accepted {clause : Interval} {operator : Operator}
    (h : (Matcher.interval clause).accepts operator = true) :
    ∃ lower upper, bound clause.dates operator.lower? = .ok lower ∧
      bound clause.dates operator.upper? = .ok upper ∧
      (lower.isSome || upper.isSome) = true ∧ clause.next operator = clause.put lower upper := by
  rw [accepts_interval, Bool.and_eq_true] at h
  obtain ⟨hrange, hok⟩ := h
  cases hcall : clause.call operator with
  | error e =>
    rw [hcall] at hok
    cases hok
  | ok found =>
    obtain ⟨lower, upper, hlower, hupper, rfl⟩ := call_eq_ok hcall
    refine ⟨lower, upper, hlower, hupper, ?_, ?_⟩
    · unfold Operator.isRange at hrange
      rw [Bool.or_eq_true] at hrange ⊢
      exact hrange.imp (isSome_bound hlower) (isSome_bound hupper)
    · unfold next
      rw [hcall]
      rfl

/-- The last of the calls that speak of a side, with one more call. -/
theorem Interval.bound_concat {dates : Bool} {side? : Operator → Option (Bool × Value)}
    {operators : List Operator} {operator : Operator} {before added : Option Bound}
    (hbefore : bound dates (operators.filterMap side?).getLast? = .ok before)
    (hadded : bound dates (side? operator) = .ok added) :
    bound dates ((operators ++ [operator]).filterMap side?).getLast? =
      .ok (added <|> before) := by
  rw [List.filterMap_append]
  cases hside : side? operator with
  | none =>
    rw [hside] at hadded
    obtain rfl : none = added := Except.ok.inj hadded
    rw [List.filterMap_cons_none hside]
    simpa using hbefore
  | some side =>
    rw [hside] at hadded
    rw [List.filterMap_cons_some hside, List.filterMap_nil, List.getLast?_concat, hadded]
    obtain ⟨found, rfl⟩ := Option.isSome_iff_exists.1 (isSome_bound hadded rfl)
    rfl

namespace Matcher

variable (dates : Bool)

/-- Behind every call each side of a range is the one that the last accepted call that speaks of it
asks for, and there are no bounds before the first accepted call. -/
theorem after_interval (operators : List Operator) :
    ∃ lower upper,
      Interval.bound dates
        (((interval { dates }).accepted operators).filterMap Operator.lower?).getLast? = .ok lower ∧
      Interval.bound dates
        (((interval { dates }).accepted operators).filterMap Operator.upper?).getLast? = .ok upper ∧
      (lower.isNone && upper.isNone) = ((interval { dates }).accepted operators).isEmpty ∧
      (interval { dates }).after operators = .interval { dates, lower, upper } := by
  induction operators using List.reverseRecOn with
  | nil => exact ⟨none, none, rfl, rfl, rfl, rfl⟩
  | append_singleton operators operator ih =>
    obtain ⟨lower, upper, hlower, hupper, hempty, hafter⟩ := ih
    rw [after_concat, hafter, operate_interval]
    have haccepted : (interval { dates }).accepted (operators ++ [operator]) =
        (interval { dates }).accepted operators ++
          if (interval { dates }).accepts operator then [operator] else [] := by
      rw [accepted_interval, accepted_interval, List.filter_append, List.filter_cons,
        List.filter_nil]
    rw [haccepted]
    have hsame : (interval { dates, lower, upper }).accepts operator =
        (interval { dates }).accepts operator :=
      accepts_interval_of_dates { dates, lower, upper } { dates } rfl operator
    cases haccepts : (interval { dates }).accepts operator with
    | false =>
      refine ⟨lower, upper, ?_⟩
      rw [Interval.next_of_refused (hsame.trans haccepts)]
      rw [if_neg Bool.false_ne_true, List.append_nil]
      exact ⟨hlower, hupper, hempty, rfl⟩
    | true =>
      obtain ⟨low, high, hlow, hhigh, hsome, hnext⟩ :=
        Interval.next_of_accepted (hsame.trans haccepts)
      rw [hnext, if_pos rfl]
      refine ⟨low <|> lower, high <|> upper, Interval.bound_concat hlower hlow,
        Interval.bound_concat hupper hhigh, ?_, rfl⟩
      cases low <;> cases high <;> simp_all

/-- Two calls next to each other that speak of different sides may be swapped. -/
theorem after_interval_swap (front rest : List Operator) {a b : Operator}
    (ha : a.upper? = none) (hb : b.lower? = none) :
    (interval { dates }).after (front ++ a :: b :: rest) =
      (interval { dates }).after (front ++ b :: a :: rest) := by
  obtain ⟨lower, upper, _, _, _, hfront⟩ := after_interval dates front
  rw [after_append, after_append, hfront]
  have after_two (clause : Interval) (first second : Operator) :
      (interval clause).after (first :: second :: rest) =
        (interval ((clause.next first).next second)).after rest := by
    show (((operate second).on ((operate first).on (interval clause)).2).2).after rest = _
    rw [operate_interval, operate_interval]
  rw [after_two, after_two, Interval.next_comm _ ha hb]

/-- After any calls, refused ones included, a range has no text if no call was accepted. Otherwise
its lower side is what the last accepted call that speaks of it asks for, behind a parenthesis if the
bound itself is excluded, or `-inf` if none speaks of it; its upper side is likewise, or `+inf`. So
two calls that speak of different sides give the same range in either order, and the same calls are
accepted. -/
theorem interval_sides (operators : List Operator) (searchName : String) :
    (∃ lower upper,
      Interval.bound dates
        (((interval { dates }).accepted operators).filterMap Operator.lower?).getLast? = .ok lower ∧
      Interval.bound dates
        (((interval { dates }).accepted operators).filterMap Operator.upper?).getLast? = .ok upper ∧
      ((interval { dates }).after operators).text? searchName =
        if (interval { dates }).accepted operators = [] then none
        else some ("[" ++
          lower.elim "-inf" (fun b => (if b.exclusive then "(" else "") ++ b.number) ++ " " ++
          upper.elim "+inf" (fun b => (if b.exclusive then "(" else "") ++ b.number) ++ "]")) ∧
      ∀ (front rest : List Operator) (a b : Operator), a.upper? = none → b.lower? = none →
        (interval { dates }).after (front ++ a :: b :: rest) =
          (interval { dates }).after (front ++ b :: a :: rest) ∧
        ((interval { dates }).accepted (front ++ a :: b :: rest)).Perm
          ((interval { dates }).accepted (front ++ b :: a :: rest)) := by
  constructor
  · obtain ⟨lower, upper, hlower, hupper, hempty, hafter⟩ := after_interval dates operators
    refine ⟨lower, upper, hlower, hupper, ?_⟩
    rw [hafter]
    show Interval.text? { dates, lower, upper } = _
    unfold Interval.text?
    rw [hempty, Interval.sideText_eq, Interval.sideText_eq]
    simp only [List.isEmpty_iff]
  · intro front rest a b ha hb
    refine ⟨after_interval_swap dates front rest ha hb, ?_⟩
    rw [accepted_interval, accepted_interval]
    apply List.Perm.filter
    exact (List.Perm.swap b a rest).append_left front

/-- More than two and less than five, whichever is called first, with a call between that is
refused. -/
theorem interval_sides_prices :
    ((interval { dates := false }).after
        [.gt (.bigInt ⟨2, by decide, by decide⟩), .eq (.string "x"),
          .lt (.bigInt ⟨5, by decide, by decide⟩)]).text? "price" = some "[(2 (5]" ∧
      (Operator.gt (.bigInt ⟨2, by decide, by decide⟩)).upper? = none ∧
      (Operator.lt (.bigInt ⟨5, by decide, by decide⟩)).lower? = none ∧
      (interval { dates := false }).after
          [.gt (.bigInt ⟨2, by decide, by decide⟩), .lt (.bigInt ⟨5, by decide, by decide⟩)] =
        (interval { dates := false }).after
          [.lt (.bigInt ⟨5, by decide, by decide⟩), .gt (.bigInt ⟨2, by decide, by decide⟩)] := by
  obtain ⟨⟨lower, upper, hlower, hupper, htext⟩, hswap⟩ := interval_sides false
    [.gt (.bigInt ⟨2, by decide, by decide⟩), .eq (.string "x"),
      .lt (.bigInt ⟨5, by decide, by decide⟩)] "price"
  obtain rfl : some ⟨true, "2"⟩ = lower := Except.ok.inj hlower
  obtain rfl : some ⟨true, "5"⟩ = upper := Except.ok.inj hupper
  exact ⟨htext.trans (by decide), rfl, rfl, (hswap [] [] _ _ rfl rfl).1⟩

/-- An upper bound that a later call replaces. -/
example :
    ((interval { dates := false }).after
        [.between (.bigInt ⟨1, by decide, by decide⟩) (.bigInt ⟨9, by decide, by decide⟩),
          .lt (.bigInt ⟨5, by decide, by decide⟩)]).text? "" =
      some "[1 (5]" := by
  decide

end Matcher

end DocumentSchema.Query
