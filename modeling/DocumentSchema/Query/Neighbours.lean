import DocumentSchema.Bytes
import DocumentSchema.Floating.Bytes
import DocumentSchema.Query.Edit
import DocumentSchema.Query.Error

/-!
# Vector clauses

A vector clause looks for the vectors next to a query vector: a number of nearest ones, or all
within a radius. The query vector goes to the store as bytes under a parameter name. Only the radius
form has a text of its own; the nearest ones are a suffix of the whole query.
-/

set_option autoImplicit false

namespace DocumentSchema.Query

/-- The bytes of a vector: each component in the format of its type, least byte first. -/
def vectorBytes (component : Component) (vector : List Binary64) : Bytes :=
  vector.flatMap fun x => (x.convert component.format).toBytes

/-- What a vector clause looks for. -/
inductive Neighbourhood where
  | nearest (count : Nat) (vector : Bytes)
  | within (radius : Binary64) (vector : Bytes)
deriving DecidableEq

/-- A clause on the vectors of a field. -/
structure Neighbours where
  component : Component
  dimension : UInt32
  neighbourhood : Option Neighbourhood := none
deriving DecidableEq

/-- The parameter name of the query vector of a radius clause. -/
def rangeParameter (searchName : String) : String := searchName ++ "_range"

namespace Neighbours

/-- The bytes of a query vector: finite components, as many as the field's vectors have. -/
def bytes (clause : Neighbours) (vector : List Binary64) : Except ValueFault Bytes :=
  if vector.length ≠ clause.dimension.toNat then
    .error (.vectorLength vector.length clause.dimension.toNat)
  else if vector.any fun x => !x.isFinite then .error .vectorNotFinite
  else .ok (vectorBytes clause.component vector)

/-- There is no looking for no neighbours. -/
def checkCount (count : Nat) : Except ValueFault Unit :=
  if count = 0 then .error .noNeighbours else .ok ()

def checkRadius (radius : Binary64) : Except ValueFault Unit :=
  if radius.isFinite && Floating.zero.le radius then .ok ()
  else .error (.radiusNotADistance radius)

def setNearest (count : Nat) (vector : List Binary64) : Edit ValueFault Neighbours Unit := do
  Edit.check (checkCount count)
  let bytes ← Edit.check ((← get).bytes vector)
  modify fun clause => { clause with neighbourhood := some (.nearest count bytes) }

def setWithin (radius : Binary64) (vector : List Binary64) : Edit ValueFault Neighbours Unit := do
  Edit.check (checkRadius radius)
  let bytes ← Edit.check ((← get).bytes vector)
  modify fun clause => { clause with neighbourhood := some (.within radius bytes) }

def text? (clause : Neighbours) (searchName : String) : Option String :=
  match clause.neighbourhood with
  | some (.within radius _) =>
    some ("[VECTOR_RANGE " ++ radius.token ++ " $" ++ rangeParameter searchName ++ "]")
  | _ => none

end Neighbours

end DocumentSchema.Query
