import DocumentSchema.Query.Interval
import DocumentSchema.Query.Neighbours
import DocumentSchema.Query.Phrase
import DocumentSchema.Query.Tag

/-!
# Matchers

The value side of a clause. The kind of a field and the form it is stored in choose the family of
the matcher; operators then change it in place, each family by its own operators.
-/

set_option autoImplicit false

namespace DocumentSchema.Query

/-- What an operator of a clause asks for. -/
inductive Operator where
  | eq (v : Value)
  | or (v : Value)
  | gt (v : Value)
  | gte (v : Value)
  | lt (v : Value)
  | lte (v : Value)
  | between (low high : Value)
  | exact (v : Value)
  | within (circle : Circle)
  | knn (count : Nat) (vector : List Binary64)
  | range (radius : Binary64) (vector : List Binary64)

def Operator.name : Operator → OperatorName
  | .eq _ => .eq
  | .or _ => .or
  | .gt _ => .gt
  | .gte _ => .gte
  | .lt _ => .lt
  | .lte _ => .lte
  | .between _ _ => .between
  | .exact _ => .exact
  | .within _ => .within
  | .knn _ _ => .knn
  | .range _ _ => .range

/-- The families of the query language. -/
inductive Family where
  | tag
  | numeric
  | text
  | geo
  | vector
deriving DecidableEq

def Family.label : Family → String
  | .tag => "TAG"
  | .numeric => "NUMERIC"
  | .text => "TEXT"
  | .geo => "GEO"
  | .vector => "VECTOR"

/-- The value side of a clause. -/
inductive Matcher where
  | tag (clause : TagClause)
  | interval (clause : Interval)
  | phrase (clause : Phrase)
  | geo (circle : Option Circle)
  | neighbours (clause : Neighbours)
deriving DecidableEq

/-- Why a matcher refuses an operator. -/
inductive Rejection where
  | unsupported
  | invalid (fault : ValueFault)
deriving DecidableEq

namespace Matcher

def family : Matcher → Family
  | .tag _ => .tag
  | .interval _ => .numeric
  | .phrase _ => .text
  | .geo _ => .geo
  | .neighbours _ => .vector

def ofScalar (storage : Storage) : Scalar → Matcher
  | .string => .tag { content := .string }
  | .bigInt => .tag { content := .bigInt }
  | .boolean => .tag { content := .boolean storage }
  | .number => .interval { dates := false }
  | .date => .interval { dates := true }
  | .text => .phrase {}
  | .point => .geo none

/-- The fresh matcher of a kind, if it can be searched. An array of scalars is one joined text in a
hash, so tags match its elements there; in a tree each element is matched by its kind. -/
def ofKind? (storage : Storage) : Kind → Option Matcher
  | .string _ _ => some (ofScalar storage .string)
  | .number _ => some (ofScalar storage .number)
  | .bigInt _ => some (ofScalar storage .bigInt)
  | .boolean => some (ofScalar storage .boolean)
  | .text _ _ => some (ofScalar storage .text)
  | .date => some (ofScalar storage .date)
  | .point => some (ofScalar storage .point)
  | .vector o => some (.neighbours { component := o.component, dimension := o.dimension })
  | .array (.scalar kind) _ =>
    match storage with
    | .hash => some (.tag { content := .element kind })
    | .json => some (ofScalar storage kind)
  | .array (.object _) _ => none
  | .tuple _ => none
  | .object _ => none

def validCircle (circle : Circle) : Except ValueFault Circle :=
  if circle.isValid then .ok circle else .error (.circleOutOfRange circle)

/-- The circle of one meter around the place that a value denotes. -/
def circleAround (v : Value) : Except ValueFault Circle :=
  let found := match v with
    | .point p => some p
    | .string s => Coordinates.read? s
    | _ => none
  match found with
  | some p => validCircle (.around p)
  | none => .error (.unexpected .point v.name)

/-- Puts a circle in place of the one before. -/
def setCircle (circle : Except ValueFault Circle) : Edit ValueFault (Option Circle) Unit := do
  let circle ← Edit.check circle
  set (some circle)

/-- Changes a matcher through its own family. -/
def change {α : Type} (wrap : α → Matcher) (own : α) (edit : Edit ValueFault α Unit) :
    Edit Rejection Matcher Unit :=
  edit.part .invalid own fun next _ => wrap next

def operate (operator : Operator) : Edit Rejection Matcher Unit := do
  match operator, ← get with
  | .eq v, .tag c => change .tag c (TagClause.setTo v)
  | .eq v, .interval c => change .interval c (Interval.setBoth v v)
  | .eq v, .phrase c => change .phrase c (Phrase.setTo v)
  | .eq v, .geo c => change .geo c (setCircle (circleAround v))
  | .or v, .tag c => change .tag c (TagClause.add v)
  | .or v, .phrase c => change .phrase c (Phrase.add v)
  | .gt v, .interval c => change .interval c (Interval.setLower true v)
  | .gte v, .interval c => change .interval c (Interval.setLower false v)
  | .lt v, .interval c => change .interval c (Interval.setUpper true v)
  | .lte v, .interval c => change .interval c (Interval.setUpper false v)
  | .between low high, .interval c => change .interval c (Interval.setBoth low high)
  | .exact v, .phrase c => change .phrase c (Phrase.setExact v)
  | .within circle, .geo c => change .geo c (setCircle (validCircle circle))
  | .knn count vector, .neighbours c => change .neighbours c (Neighbours.setNearest count vector)
  | .range radius vector, .neighbours c => change .neighbours c (Neighbours.setWithin radius vector)
  | _, _ => throw .unsupported

/-- The text after the name of the field, once there is one. -/
def text? (searchName : String) : Matcher → Option String
  | .tag c => c.text?
  | .interval c => c.text?
  | .phrase c => c.text?
  | .geo c => c.map fun c => "[" ++ c.text ++ "]"
  | .neighbours c => c.text? searchName

def nearest? : Matcher → Option (Nat × Bytes)
  | .neighbours { neighbourhood := some (.nearest count vector), .. } => some (count, vector)
  | _ => none

def rangeVector? : Matcher → Option Bytes
  | .neighbours { neighbourhood := some (.within _ vector), .. } => some vector
  | _ => none

def isComplete : Matcher → Bool
  | .neighbours c => c.neighbourhood.isSome
  | m => (m.text? "").isSome

end Matcher

end DocumentSchema.Query
