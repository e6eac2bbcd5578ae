import DocumentSchema.Schema.Basic
import DocumentSchema.Schema.Error

/-!
# Registries

A registry holds schemas by name, so that links find the schemas they point to. `validate` gives the
first link without one.
-/

set_option autoImplicit false

namespace DocumentSchema

/-- Schemas by name. -/
structure Registry where
  schemas : Entries Schema := []

namespace Registry

def register (r : Registry) (name : String) (schema : Schema) : Registry :=
  ⟨r.schemas.insert name schema⟩

def unregister (r : Registry) (name : String) : Registry := ⟨r.schemas.erase name⟩

/-- Forgets every schema. -/
def clear (_r : Registry) : Registry := {}

def get? (r : Registry) (name : String) : Option Schema := r.schemas.get? name

/-- The schema that a link of the schema `owner` points to. -/
def target? (r : Registry) (owner : String) : Target → Option Schema
  | .self => r.get? owner
  | .named name => r.get? name

def links (schema : Schema) : List (String × Target) :=
  schema.references.map (fun e => (e.1, e.2.target)) ++
    schema.relations.map fun e => (e.1, e.2.target)

/-- Whether a link points to no schema of the registry; a link to its own schema always has one. -/
def dangling? (r : Registry) (link : String × Target) : Option SchemaError :=
  match link.2 with
  | .self => none
  | .named name =>
    if r.schemas.contains name then none else some (.unknownTarget link.1 name)

/-- Checks every link of every schema, in the order of names. -/
def validate (r : Registry) : Except SchemaError Unit :=
  match (r.schemas.flatMap fun e => links e.2).findSome? r.dangling? with
  | none => .ok ()
  | some e => .error e

end Registry

end DocumentSchema
