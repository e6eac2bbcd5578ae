import DocumentSchema.Query.Edit
import DocumentSchema.Query.Error

/-!
# Range clauses

A range clause bounds a number from below and from above, either side on its own. Dates are compared
as milliseconds. While neither side is bounded the clause has no text.
-/

set_option autoImplicit false

namespace DocumentSchema.Query

/-- A bound of a range. -/
structure Bound where
  exclusive : Bool
  number : String
deriving DecidableEq

def Bound.text (b : Bound) : String := if b.exclusive then "(" ++ b.number else b.number

/-- A clause that bounds a number or a date. -/
structure Interval where
  dates : Bool
  lower : Option Bound := none
  upper : Option Bound := none
deriving DecidableEq

namespace Interval

def number (clause : Interval) (v : Value) : Except ValueFault String :=
  if clause.dates then
    match v.toMillis? with
    | some millis => .ok (Decimal.intText millis)
    | none => .error (.unexpected .date v.name)
  else
    match v with
    | .number x => if x.isFinite then .ok x.token else .error (.unexpected .finiteNumber v.name)
    | .bigInt i => .ok i.text
    | _ => .error (.unexpected .finiteNumber v.name)

def setLower (exclusive : Bool) (v : Value) : Edit ValueFault Interval Unit := do
  let number ← Edit.check ((← get).number v)
  modify fun clause => { clause with lower := some ⟨exclusive, number⟩ }

def setUpper (exclusive : Bool) (v : Value) : Edit ValueFault Interval Unit := do
  let number ← Edit.check ((← get).number v)
  modify fun clause => { clause with upper := some ⟨exclusive, number⟩ }

/-- Bounds both sides. Both numbers are read before either side is written. -/
def setBoth (low high : Value) : Edit ValueFault Interval Unit := do
  let lower ← Edit.check ((← get).number low)
  let upper ← Edit.check ((← get).number high)
  modify fun clause => { clause with lower := some ⟨false, lower⟩ }
  modify fun clause => { clause with upper := some ⟨false, upper⟩ }

def sideText (unbounded : String) : Option Bound → String
  | none => unbounded
  | some b => b.text

def text? (clause : Interval) : Option String :=
  if clause.lower.isNone && clause.upper.isNone then none
  else some ("[" ++ sideText "-inf" clause.lower ++ " " ++ sideText "+inf" clause.upper ++ "]")

end Interval

end DocumentSchema.Query
