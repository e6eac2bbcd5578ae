import DocumentSchema.Codec.Hash
import DocumentSchema.Query.Edit
import DocumentSchema.Query.Error
import DocumentSchema.Query.Escape
import DocumentSchema.Storage

/-!
# Tag clauses

A tag clause matches one of several texts, each written as the store holds it. Its text is the
escaped tokens between braces with bars between them; while there is no token it has no text.
-/

set_option autoImplicit false

namespace DocumentSchema.Query

/-- What the texts of a tag stand for. -/
inductive TagContent where
  | string
  | bigInt
  /-- Truth values are digits in a hash and words in a tree. -/
  | boolean (storage : Storage)
  | element (kind : Scalar)
deriving DecidableEq

def unexpected (expected : Expected) (v : Value) : ValueFault := .unexpected expected v.name

namespace TagContent

def stringToken (v : Value) : Except ValueFault String :=
  match v.plainText? with
  | some s => .ok s
  | none => .error (unexpected .scalar v)

/-- The text of an integer; a text that reads as an integer is taken as it is. -/
def bigIntToken (v : Value) : Except ValueFault String :=
  match v with
  | .bigInt i => .ok i.text
  | .number x =>
    match x.toInt128? with
    | some i => .ok i.text
    | none => .error (unexpected .integerInRange v)
  | .string s => if (Int128.read? s).isSome then .ok s else .error (unexpected .integer v)
  | _ => .error (unexpected .integer v)

def booleanToken (storage : Storage) (v : Value) : Except ValueFault String :=
  match v with
  | .bool b =>
    .ok (match storage with
      | .hash => Hash.boolText b
      | .json => Value.boolText b)
  | _ => .error (unexpected .boolean v)

def numberToken (v : Value) : Except ValueFault String :=
  match v with
  | .number x => if x.isFinite then .ok x.token else .error (unexpected .finiteNumber v)
  | _ => .error (unexpected .finiteNumber v)

def dateToken (v : Value) : Except ValueFault String :=
  match v.toMillis? with
  | some millis => .ok (Hash.secondsText millis)
  | none => .error (unexpected .date v)

def pointToken (v : Value) : Except ValueFault String :=
  let found := match v with
    | .point p => some p
    | .string s => Coordinates.read? s
    | _ => none
  match found.filter Coordinates.isValid with
  | some p => .ok p.text
  | none => .error (unexpected .point v)

def token (content : TagContent) (v : Value) : Except ValueFault String :=
  match content with
  | .string => stringToken v
  | .bigInt => bigIntToken v
  | .boolean storage => booleanToken storage v
  | .element .string => stringToken v
  | .element .text => stringToken v
  | .element .bigInt => bigIntToken v
  | .element .boolean => booleanToken .hash v
  | .element .number => numberToken v
  | .element .date => dateToken v
  | .element .point => pointToken v

end TagContent

/-- A clause that matches one of its tokens. -/
structure TagClause where
  content : TagContent
  tokens : List String := []
deriving DecidableEq

namespace TagClause

def token (clause : TagClause) (v : Value) : Except ValueFault String :=
  (clause.content.token v).map escapeText

def setTo (v : Value) : Edit ValueFault TagClause Unit := do
  let token ← Edit.check ((← get).token v)
  modify fun clause => { clause with tokens := [token] }

def add (v : Value) : Edit ValueFault TagClause Unit := do
  let token ← Edit.check ((← get).token v)
  modify fun clause => { clause with tokens := clause.tokens ++ [token] }

def body (clause : TagClause) : String := String.intercalate " | " clause.tokens

def text? (clause : TagClause) : Option String :=
  if clause.tokens.isEmpty then none else some ("\x7b" ++ clause.body ++ "\x7d")

end TagClause

end DocumentSchema.Query
