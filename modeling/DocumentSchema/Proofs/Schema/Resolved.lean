import DocumentSchema.Proofs.Declaration.WellFormed
import DocumentSchema.Proofs.Value.Plain
import DocumentSchema.Schema.Resolution

/-!
# What resolution guarantees

The invariant of resolved fields. A default is a value that the field's kind keeps (`Kind.Keeps`):
coercing its tree gives the same value again. A field is indexed only below indexed ones, no date is
sorted by, and the numbers among the options are those that a declaration may give.
-/

set_option autoImplicit false

namespace DocumentSchema

/-- Whether a kind has no elements and no fields of its own. -/
def Kind.isLeaf : Kind → Bool
  | .array _ _ => false
  | .tuple _ => false
  | .object _ => false
  | _ => true

/-- The values other than null that a field of a leaf kind keeps as its default. -/
def Kind.KeepsLeaf : Kind → Value → Prop
  | .string _ _, v => ∃ s, v = .string s
  | .text _ _, v => ∃ s, v = .string s
  | .number literals, v =>
    ∃ x : Finite64, v = .number (.finite x) ∧ admits Floating.equal literals (.finite x) = true
  | .bigInt literals, v => ∃ i, v = .bigInt i ∧ admits (fun a b => a = b) literals i = true
  | .boolean, v => ∃ b, v = .bool b
  | .date, v => ∃ m, v = .number (Floating.ofInt .binary64 m) ∧ v.toMillis? = some m
  | .point, v => ∃ p, v = .point p ∧ p.isValid = true
  | .vector o, v =>
    ∃ xs : List Finite64, v = .array (xs.map fun x => .number (.finite x)) ∧
      xs.length = o.dimension.toNat
  | .array _ _, _ => False
  | .tuple _, _ => False
  | .object _, _ => False

mutual

/-- The values that a field of a kind keeps as its default. -/
def Kind.Keeps : Kind → Value → Prop
  | .array element _, v => v = .null ∨ ∃ vs, v = .array vs ∧ ∀ w ∈ vs, element.Keeps w
  | .tuple positions, v => v = .null ∨ ∃ vs, v = .array vs ∧ positionsKeep positions vs
  | .object fields, v =>
    v = .null ∨ ∃ members, v = .object members ∧ Entries.Ordered members ∧
      Value.membersPlain (undescribed fields members) ∧ fieldsKeep fields members
  | kind, v => v = .null ∨ kind.KeepsLeaf v
termination_by structural kind => kind

/-- What an element keeps as part of a default. -/
def Element.Keeps : Element → Value → Prop
  | .scalar kind, v => v = .null ∨ (Kind.ofScalar kind).KeepsLeaf v
  | .object fields, v =>
    ∃ members, v = .object members ∧ Entries.Ordered members ∧
      Value.membersPlain (undescribed fields members) ∧ fieldsKeep fields members
termination_by structural element => element

/-- The values that the positions of a tuple keep, one for each. -/
def positionsKeep : List Element → List Value → Prop
  | [], [] => True
  | element :: elements, v :: vs => element.Keeps v ∧ positionsKeep elements vs
  | _, _ => False
termination_by structural elements => elements

/-- The members that fields keep, if they are there. -/
def fieldsKeep : List (String × Field) → Document → Prop
  | [], _ => True
  | (name, .mk kind _ _ _ _) :: rest, members =>
    (∀ v, members.get? name = some v → kind.Keeps v) ∧ fieldsKeep rest members
termination_by structural fields => fields

end

mutual

/-- What resolution guarantees of a kind of an indexed or unindexed field. -/
def Kind.Resolved (indexed : Bool) : Kind → Prop
  | .number literals => ∀ xs, literals = some xs → ∀ x ∈ xs, x.isFinite = true
  | .text weight _ => weight.isFinite = true ∧ weight.le Floating.zero = false
  | .vector options => options.dimension ≠ 0
  | .array element _ =>
    (∀ fields, element = .object fields → indexed = false) ∧ element.Resolved indexed
  | .tuple positions =>
    positions ≠ [] ∧ positions.length < countLimit ∧ positionsResolved indexed positions
  | .object fields => Entries.Ordered fields ∧ fieldsResolved indexed fields
  | _ => True
termination_by structural kind => kind

/-- What resolution guarantees of an element. -/
def Element.Resolved (indexed : Bool) : Element → Prop
  | .scalar _ => True
  | .object fields => Entries.Ordered fields ∧ fieldsResolved indexed fields
termination_by structural element => element

/-- What resolution guarantees of the positions of a tuple. -/
def positionsResolved (indexed : Bool) : List Element → Prop
  | [] => True
  | element :: elements => element.Resolved indexed ∧ positionsResolved indexed elements
termination_by structural elements => elements

/-- What resolution guarantees of a field below others that are indexed or not. -/
def Field.Resolved (inherited : Bool) : Field → Prop
  | .mk kind _ sortable indexed default =>
    (indexed = true → inherited = true) ∧ (kind.name = .scalar .date → sortable = false) ∧
      kind.Resolved indexed ∧ ∀ v, default = some v → kind.Keeps v
termination_by structural field => field

/-- What resolution guarantees of the fields of one level. -/
def fieldsResolved (inherited : Bool) : List (String × Field) → Prop
  | [] => True
  | (name, field) :: rest =>
    name.toList.head? ≠ some Resolution.reservedStart ∧ field.Resolved inherited ∧
      fieldsResolved inherited rest
termination_by structural fields => fields

end

/-- A schema that resolution gives for some declarations. -/
def Schema.IsCanonical (schema : Schema) : Prop :=
  ∃ declarations : Declarations,
    declarations.WellFormed ∧ Schema.ofDeclarations declarations = .ok schema

end DocumentSchema
