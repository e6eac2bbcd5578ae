import DocumentSchema.Query.Matcher

/-!
# Attributes of index fields

What an index is told of a field: the family of the query language, then the options of the family.
-/

set_option autoImplicit false

namespace DocumentSchema.Index

def sortMark (sortable : Bool) : List String := if sortable then ["SORTABLE"] else []

/-- The attributes of a tag with a separator between its texts. -/
def separatedTag (separator : Char) : List String :=
  [Query.Family.tag.label, "SEPARATOR", separator.toString]

def caseMark (caseSensitive : Bool) : List String := if caseSensitive then ["CASESENSITIVE"] else []

def textAttributes (weight : Binary64) (phonetic : Option Phonetic) : List String :=
  [Query.Family.text.label] ++
    (if weight.equal standardWeight then [] else ["WEIGHT", weight.token]) ++
    match phonetic with
    | none => []
    | some p => ["PHONETIC", p.label]

def word (w : UInt32) : String := Decimal.natText w.toNat

def algorithmOptions : Algorithm → List (String × String)
  | .flat blockSize => [("BLOCK_SIZE", word blockSize)]
  | .graph m efConstruction efRuntime epsilon =>
    [("M", word m), ("EF_CONSTRUCTION", word efConstruction), ("EF_RUNTIME", word efRuntime),
      ("EPSILON", epsilon.token)]

def vectorOptions (o : VectorOptions) : List (String × String) :=
  [("TYPE", o.component.label), ("DIM", word o.dimension), ("DISTANCE_METRIC", o.metric.label)] ++
    (match o.initialCap with
      | none => []
      | some cap => [("INITIAL_CAP", word cap)]) ++
    algorithmOptions o.algorithm

/-- The attributes of a vector: the algorithm, how many arguments follow, and the options. -/
def vectorAttributes (o : VectorOptions) : List String :=
  [Query.Family.vector.label, o.algorithm.label,
    Decimal.natText ((vectorOptions o).length * 2)] ++
    (vectorOptions o).flatMap fun e => [e.1, e.2]

/-- The attributes of a field of its own; arrays, tuples and objects have none. -/
def leafAttributes (sortable : Bool) : Kind → Option (List String)
  | .string separator caseSensitive =>
    some (separatedTag separator ++ caseMark caseSensitive ++ sortMark sortable)
  | .bigInt _ => some (Query.Family.tag.label :: sortMark sortable)
  | .boolean => some (Query.Family.tag.label :: sortMark sortable)
  | .number _ => some (Query.Family.numeric.label :: sortMark sortable)
  | .date => some (Query.Family.numeric.label :: sortMark sortable)
  | .text weight phonetic => some (textAttributes weight phonetic ++ sortMark sortable)
  | .point => some [Query.Family.geo.label]
  | .vector o => some (vectorAttributes o)
  | .array _ _ => none
  | .tuple _ => none
  | .object _ => none

/-- The attributes of an element of an array or a position of a tuple. -/
def elementAttributes : Scalar → List String
  | .string => [Query.Family.tag.label]
  | .bigInt => [Query.Family.tag.label]
  | .boolean => [Query.Family.tag.label]
  | .number => [Query.Family.numeric.label]
  | .date => [Query.Family.numeric.label]
  | .text => [Query.Family.text.label]
  | .point => [Query.Family.geo.label]

end DocumentSchema.Index
