import DocumentSchema.Declaration.Basic
import DocumentSchema.Proofs.Entries

/-!
# Trees and declarations as memory holds them

The trees and declarations that a program can hold have every map in key order, and no list with
more items than 64 bits count. The options of declarations that come from a tree have no null for a
default and finite numbers only (`Attributes.Portable`).
-/

set_option autoImplicit false

namespace DocumentSchema

/-- The number of items that no list in memory reaches. -/
def countLimit : Nat := 18446744073709551616

mutual

/-- Objects are in key order and arrays can be counted. -/
def Json.WellFormed : Json → Prop
  | .null => True
  | .bool _ => True
  | .number _ => True
  | .string _ => True
  | .array items => items.length < countLimit ∧ itemsWellFormed items
  | .object members => Entries.Ordered members ∧ membersWellFormed members
termination_by structural json => json

/-- The same for every item of an array. -/
def itemsWellFormed : List Json → Prop
  | [] => True
  | json :: rest => json.WellFormed ∧ itemsWellFormed rest
termination_by structural items => items

/-- The same for the value of every member of an object. -/
def membersWellFormed : List (String × Json) → Prop
  | [] => True
  | (_, json) :: rest => json.WellFormed ∧ membersWellFormed rest
termination_by structural members => members

end

/-- The value found at a name is one of the values. -/
theorem membersWellFormed_get? {members : Entries Json} (h : membersWellFormed members)
    {name : String} {json : Json} (hget : members.get? name = some json) : json.WellFormed := by
  have hall : ∀ e ∈ members, e.2.WellFormed := forall_mem_of_cons (fun _ _ h => h) h
  exact hall (name, json) (Entries.mem_of_get? hget)

/-- Every item of a list in memory is in memory. -/
theorem itemsWellFormed_of_mem {items : List Json} (h : itemsWellFormed items) :
    ∀ json ∈ items, json.WellFormed :=
  forall_mem_of_cons (fun _ _ h => h) h

mutual

/-- Maps are in key order, lists can be counted, and the options at every level have a property. -/
def Declaration.Satisfies (p : Attributes → Prop) : Declaration → Prop
  | .shorthand _ => True
  | .full attributes elements properties edge =>
    p attributes ∧ elementsSatisfy? p elements ∧ declarationsSatisfy? p properties ∧
      declarationsSatisfy? p edge
termination_by structural d => d

/-- The same for elements that may be missing. -/
def elementsSatisfy? (p : Attributes → Prop) : Option Elements → Prop
  | none => True
  | some elements => elements.Satisfy p
termination_by structural e => e

/-- The same for the elements of an array and the positions of a tuple. -/
def Elements.Satisfy (p : Attributes → Prop) : Elements → Prop
  | .kind _ => True
  | .fields fields => Entries.Ordered fields ∧ declarationsSatisfy p fields
  | .positions positions => positions.length < countLimit ∧ positionsSatisfy p positions
termination_by structural e => e

/-- The same for declarations that may be missing. -/
def declarationsSatisfy? (p : Attributes → Prop) : Option (List (String × Declaration)) → Prop
  | none => True
  | some fields => Entries.Ordered fields ∧ declarationsSatisfy p fields
termination_by structural ds => ds

/-- The same for every declaration under a name. -/
def declarationsSatisfy (p : Attributes → Prop) : List (String × Declaration) → Prop
  | [] => True
  | (_, declaration) :: rest => declaration.Satisfies p ∧ declarationsSatisfy p rest
termination_by structural ds => ds

/-- The same for every position of a tuple. -/
def positionsSatisfy (p : Attributes → Prop) : List Position → Prop
  | [] => True
  | position :: rest => position.Satisfies p ∧ positionsSatisfy p rest
termination_by structural ps => ps

/-- The same for the declarations inside a position. -/
def Position.Satisfies (p : Attributes → Prop) : Position → Prop
  | .kind _ => True
  | .fields fields => Entries.Ordered fields ∧ declarationsSatisfy p fields
termination_by structural position => position

end

/-- The default among the options is in memory. -/
def Attributes.WellFormed (a : Attributes) : Prop :=
  ∀ json, a.default = some json → json.WellFormed

/-- Options that a tree can hold: no default of null, and numbers that have a text. -/
structure Attributes.Portable (a : Attributes) : Prop where
  default_ne_null : a.default ≠ some .null
  weight_finite : ∀ x, a.weight = some x → x.isFinite = true
  epsilon_finite : ∀ x, a.epsilon = some x → x.isFinite = true

/-- Declarations in key order at every level, with defaults in memory. -/
def Declarations.WellFormed (declarations : Declarations) : Prop :=
  Entries.Ordered declarations ∧ declarationsSatisfy Attributes.WellFormed declarations

end DocumentSchema
