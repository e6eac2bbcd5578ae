import DocumentSchema.Schema.Kind

/-!
# Resolved schemas

A schema has fields, which documents hold, and links, which they do not: references are lists of
foreign identifiers, relations can also be searched and may describe their edges. Equality of
schemas compares numbers as numbers (`Schema.same`).
-/

set_option autoImplicit false

namespace DocumentSchema

/-- The schema that a link points to. -/
inductive Target where
  | self
  | named (name : String)
deriving DecidableEq

namespace Target

/-- The target of a name; one name means the schema with the link. -/
def read (name : String) : Target := if name = "self" then .self else .named name

def label : Target → String
  | .self => "self"
  | .named name => name

end Target

/-- A link that is never searched. -/
structure Reference where
  target : Target
  optional : Bool
deriving DecidableEq

/-- A link that can be searched; its edges may have fields of their own. -/
structure Relation where
  target : Target
  optional : Bool
  indexed : Bool
  edge : Option (Entries Field)

/-- What resolution found worth a word. -/
inductive Warning where
  | unsearchableArray (field : String)
deriving DecidableEq

def Warning.message : Warning → String
  | .unsearchableArray field =>
    "field '" ++ field ++ "' is an array of objects; it is stored but cannot be searched"

/-- A resolved schema. -/
structure Schema where
  fields : Entries Field
  references : Entries Reference
  relations : Entries Relation
  warnings : List Warning

def Schema.isLink (schema : Schema) (name : String) : Bool :=
  schema.references.contains name || schema.relations.contains name

def undescribed {α : Type} (fields : Entries Field) (entries : Entries α) : Entries α :=
  entries.filter fun e => !fields.contains e.1

/-- Whether a value is among the literals of a field, if the field has any. -/
def admits {α : Type} (same : α → α → Bool) (literals : Option (List α)) (a : α) : Bool :=
  match literals with
  | none => true
  | some allowed => allowed.any fun b => same b a

/-- Equality of optional things, given that of the things. -/
def sameOption {α : Type} (same : α → α → Bool) : Option α → Option α → Bool
  | none, none => true
  | some a, some b => same a b
  | _, _ => false

def sameList {α : Type} (same : α → α → Bool) : List α → List α → Bool
  | [], [] => true
  | a :: as, b :: bs => same a b && sameList same as bs
  | _, _ => false

mutual

/-- Equality of kinds, with numbers compared as numbers. -/
def Kind.same : Kind → Kind → Bool
  | .string s c, .string s' c' => s = s' && c = c'
  | .number l, .number l' => sameOption (sameList Floating.equal) l l'
  | .bigInt l, .bigInt l' => l = l'
  | .boolean, .boolean => true
  | .text w p, .text w' p' => w.equal w' && p = p'
  | .date, .date => true
  | .point, .point => true
  | .vector o, .vector o' => o.same o'
  | .array e s, .array e' s' => e.same e' && s = s'
  | .tuple es, .tuple es' => sameElements es es'
  | .object fs, .object fs' => sameFields fs fs'
  | _, _ => false
termination_by structural k => k

def Element.same : Element → Element → Bool
  | .scalar k, .scalar k' => k = k'
  | .object fs, .object fs' => sameFields fs fs'
  | _, _ => false
termination_by structural e => e

def Field.same : Field → Field → Bool
  | .mk k o s i d, .mk k' o' s' i' d' =>
    k.same k' && o = o' && s = s' && i = i' && sameOption Value.same d d'
termination_by structural f => f

def sameElements : List Element → List Element → Bool
  | [], [] => true
  | e :: es, e' :: es' => e.same e' && sameElements es es'
  | _, _ => false
termination_by structural es => es

def sameFields : List (String × Field) → List (String × Field) → Bool
  | [], [] => true
  | (n, f) :: fs, (n', f') :: fs' => n = n' && f.same f' && sameFields fs fs'
  | _, _ => false
termination_by structural fs => fs

end

def Relation.same (a b : Relation) : Bool :=
  a.target = b.target && a.optional = b.optional && a.indexed = b.indexed &&
    sameOption sameFields a.edge b.edge

def Schema.same (a b : Schema) : Bool :=
  sameFields a.fields b.fields && a.references = b.references &&
    sameList (fun r s => r.1 = s.1 && r.2.same s.2) a.relations b.relations &&
    a.warnings = b.warnings

end DocumentSchema
