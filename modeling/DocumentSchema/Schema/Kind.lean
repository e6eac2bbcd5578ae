import DocumentSchema.Value.Basic

/-!
# Kinds of fields

What a field of a resolved schema holds. Every option has its value here: nothing is left to a
default. Scalars may be elements of arrays and positions of tuples, and as such have the options
that their bare names stand for (`Kind.ofScalar`).
-/

set_option autoImplicit false

namespace DocumentSchema

/-- The kinds that may be elements of arrays and tuples by name. -/
inductive Scalar where
  | string
  | number
  | bigInt
  | boolean
  | text
  | date
  | point
deriving DecidableEq

def Scalar.label : Scalar → String
  | .string => "string"
  | .number => "number"
  | .bigInt => "bigint"
  | .boolean => "boolean"
  | .text => "text"
  | .date => "date"
  | .point => "point"

def Scalar.all : List Scalar := [.string, .number, .bigInt, .boolean, .text, .date, .point]

def Scalar.read? (name : String) : Option Scalar := Scalar.all.find? fun k => k.label = name

/-- A language whose words full-text search compares by sound. -/
inductive Phonetic where
  | english
  | french
  | portuguese
  | spanish
deriving DecidableEq

def Phonetic.label : Phonetic → String
  | .english => "dm:en"
  | .french => "dm:fr"
  | .portuguese => "dm:pt"
  | .spanish => "dm:es"

def Phonetic.read? (name : String) : Option Phonetic :=
  [Phonetic.english, .french, .portuguese, .spanish].find? fun p => p.label = name

/-- How an index stores a component of a vector. -/
inductive Component where
  | float32
  | float64
deriving DecidableEq

def Component.label : Component → String
  | .float32 => "FLOAT32"
  | .float64 => "FLOAT64"

def Component.read? (name : String) : Option Component :=
  [Component.float32, .float64].find? fun c => c.label = name.toUpper

def Component.format : Component → Format
  | .float32 => .binary32
  | .float64 => .binary64

/-- What the distance of two vectors is. -/
inductive Metric where
  | euclidean
  | innerProduct
  | cosine
deriving DecidableEq

def Metric.label : Metric → String
  | .euclidean => "L2"
  | .innerProduct => "IP"
  | .cosine => "COSINE"

def Metric.read? (name : String) : Option Metric :=
  [Metric.euclidean, .innerProduct, .cosine].find? fun m => m.label = name.toUpper

/-- How an index finds near vectors: by looking at all of them, or in a graph. -/
inductive Algorithm where
  | flat (blockSize : UInt32)
  | graph (m efConstruction efRuntime : UInt32) (epsilon : Binary64)
deriving DecidableEq

def Algorithm.label : Algorithm → String
  | .flat _ => "FLAT"
  | .graph _ _ _ _ => "HNSW"

/-- Equality of algorithms, with numbers compared as numbers. -/
def Algorithm.same : Algorithm → Algorithm → Bool
  | .flat a, .flat b => a = b
  | .graph m c r e, .graph m' c' r' e' => m = m' && c = c' && r = r' && e.equal e'
  | _, _ => false

/-- The options of a vector field. -/
structure VectorOptions where
  algorithm : Algorithm
  component : Component
  dimension : UInt32
  metric : Metric
  initialCap : Option UInt32
deriving DecidableEq

/-- Equality of vector options, with numbers compared as numbers. -/
def VectorOptions.same (a b : VectorOptions) : Bool :=
  a.algorithm.same b.algorithm && a.component = b.component && a.dimension = b.dimension &&
    a.metric = b.metric && a.initialCap = b.initialCap

/-- The options that the bare name of the kind stands for. -/
def VectorOptions.standard : VectorOptions :=
  { algorithm := .flat 1024, component := .float32, dimension := 128, metric := .euclidean,
    initialCap := none }

mutual

/-- What a field holds, with its options. -/
inductive Kind where
  | string (separator : Char) (caseSensitive : Bool)
  | number (literals : Option (List Binary64))
  | bigInt (literals : Option (List Int128))
  | boolean
  | text (weight : Binary64) (phonetic : Option Phonetic)
  | date
  | point
  | vector (options : VectorOptions)
  | array (elements : Element) (separator : Char)
  | tuple (positions : List Element)
  | object (fields : List (String × Field))

/-- What an element of an array or a position of a tuple holds. -/
inductive Element where
  | scalar (kind : Scalar)
  | object (fields : List (String × Field))

/-- A field: its kind, whether it may be missing, sorted by and searched, and its default. -/
inductive Field where
  | mk (kind : Kind) (optional sortable indexed : Bool) (default : Option Value)

end

namespace Field

def kind : Field → Kind
  | .mk kind _ _ _ _ => kind

def optional : Field → Bool
  | .mk _ optional _ _ _ => optional

def sortable : Field → Bool
  | .mk _ _ sortable _ _ => sortable

/-- Whether the index has the field; never so below a field that it does not have. -/
def indexed : Field → Bool
  | .mk _ _ _ indexed _ => indexed

def default : Field → Option Value
  | .mk _ _ _ _ default => default

/-- A field of a kind with no flag but that it is indexed. -/
def ofKind (kind : Kind) : Field := .mk kind false false true none

end Field

/-- The separator of arrays and tags unless another one is given. -/
def standardSeparator : Char := ','

def standardWeight : Binary64 := Floating.ofInt .binary64 1

/-- The names of the kinds. -/
inductive KindName where
  | scalar (kind : Scalar)
  | vector
  | array
  | tuple
  | object
deriving DecidableEq

def KindName.label : KindName → String
  | .scalar kind => kind.label
  | .vector => "vector"
  | .array => "array"
  | .tuple => "tuple"
  | .object => "object"

def KindName.read? (name : String) : Option KindName :=
  (Scalar.all.map KindName.scalar ++ [KindName.vector, .array, .tuple, .object]).find? fun k =>
    k.label = name

namespace Kind

def name : Kind → KindName
  | .string _ _ => .scalar .string
  | .number _ => .scalar .number
  | .bigInt _ => .scalar .bigInt
  | .boolean => .scalar .boolean
  | .text _ _ => .scalar .text
  | .date => .scalar .date
  | .point => .scalar .point
  | .vector _ => .vector
  | .array _ _ => .array
  | .tuple _ => .tuple
  | .object _ => .object

def ofScalar : Scalar → Kind
  | .string => .string standardSeparator false
  | .number => .number none
  | .bigInt => .bigInt none
  | .boolean => .boolean
  | .text => .text standardWeight none
  | .date => .date
  | .point => .point

end Kind

end DocumentSchema
