import DocumentSchema.Declaration.Basic
import DocumentSchema.Schema.Basic
import DocumentSchema.Value.Json

/-!
# The declarations of a schema

A schema as declarations that leave nothing out: every option of every field is given. Resolving
them gives the schema again.
-/

set_option autoImplicit false

namespace DocumentSchema

def Field.flags (kind : KindName) (optional sortable indexed : Bool) (default : Option Value) :
    Attributes :=
  { kind := kind.label, optional := some optional, sortable := some sortable,
    indexed := some indexed, default := default.map Value.toJson }

def Algorithm.declare (a : Attributes) : Algorithm → Attributes
  | .flat blockSize => { a with blockSize := some blockSize }
  | .graph m efConstruction efRuntime epsilon =>
    { a with m := some m, efConstruction := some efConstruction, efRuntime := some efRuntime,
             epsilon := some epsilon }

def VectorOptions.declare (a : Attributes) (o : VectorOptions) : Attributes :=
  o.algorithm.declare
    { a with algorithm := some o.algorithm.label, component := some o.component.label,
             dimension := some o.dimension, metric := some o.metric.label,
             initialCap := o.initialCap }

def Kind.declare (a : Attributes) : Kind → Attributes
  | .string separator caseSensitive =>
    { a with separator := some separator.toString, caseSensitive := some caseSensitive }
  | .number literals => { a with literals := literals.map fun xs => xs.map Json.ofBinary }
  | .bigInt literals => { a with literals := literals.map fun is => is.map fun i => .string i.text }
  | .text weight phonetic =>
    { a with weight := some weight, phonetic := phonetic.map Phonetic.label }
  | .vector options => options.declare a
  | .array _ separator => { a with separator := some separator.toString }
  | .boolean => a
  | .date => a
  | .point => a
  | .tuple _ => a
  | .object _ => a

mutual

def Field.declare : Field → Declaration
  | .mk kind optional sortable indexed default =>
    .full (kind.declare (Field.flags kind.name optional sortable indexed default))
      kind.declareElements kind.declareProperties none
termination_by structural f => f

def Kind.declareElements : Kind → Option Elements
  | .array element _ => some element.declareElements
  | .tuple positions => some (.positions (declarePositions positions))
  | _ => none
termination_by structural k => k

def Kind.declareProperties : Kind → Option (List (String × Declaration))
  | .object fields => some (declareFields fields)
  | _ => none
termination_by structural k => k

def Element.declareElements : Element → Elements
  | .scalar kind => .kind kind.label
  | .object fields => .fields (declareFields fields)
termination_by structural e => e

def Element.declarePosition : Element → Position
  | .scalar kind => .kind kind.label
  | .object fields => .fields (declareFields fields)
termination_by structural e => e

def declarePositions : List Element → List Position
  | [] => []
  | element :: rest => element.declarePosition :: declarePositions rest
termination_by structural es => es

def declareFields : List (String × Field) → List (String × Declaration)
  | [] => []
  | (name, field) :: rest => (name, field.declare) :: declareFields rest
termination_by structural fs => fs

end

def Reference.declare (r : Reference) : Declaration :=
  .full { kind := "reference", target := some r.target.label, optional := some r.optional }
    none none none

def Relation.declare (r : Relation) : Declaration :=
  .full { kind := "relation", target := some r.target.label, optional := some r.optional,
          indexed := some r.indexed }
    none none (r.edge.map declareFields)

def Schema.toDeclarations (schema : Schema) : Declarations :=
  Entries.insertAll
    (Entries.insertAll (declareFields schema.fields)
      (schema.references.mapValues Reference.declare))
    (schema.relations.mapValues Relation.declare)

end DocumentSchema
