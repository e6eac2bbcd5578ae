import DocumentSchema.Query.Edit
import DocumentSchema.Query.Error

/-!
# Full-text clauses

A full-text clause matches one of several terms, words or quoted phrases, which stand as they are
given. While there is no term it has no text.
-/

set_option autoImplicit false

namespace DocumentSchema.Query

/-- A clause that matches one of its terms. -/
structure Phrase where
  terms : List String := []
deriving DecidableEq

namespace Phrase

def term (v : Value) : Except ValueFault String :=
  match v.plainText? with
  | some s => .ok s
  | none => .error (.unexpected .text v.name)

def setTo (v : Value) : Edit ValueFault Phrase Unit := do
  let term ← Edit.check (term v)
  set { terms := [term] : Phrase }

def setExact (v : Value) : Edit ValueFault Phrase Unit := do
  let term ← Edit.check (term v)
  set { terms := ["\"" ++ term ++ "\""] : Phrase }

def add (v : Value) : Edit ValueFault Phrase Unit := do
  let term ← Edit.check (term v)
  modify fun clause => { terms := clause.terms ++ [term] }

def text? (clause : Phrase) : Option String :=
  match clause.terms with
  | [] => none
  | [single] => some single
  | many => some ("(" ++ String.intercalate "|" many ++ ")")

end Phrase

end DocumentSchema.Query
