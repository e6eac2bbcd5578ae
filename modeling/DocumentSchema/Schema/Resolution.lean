import DocumentSchema.Declaration.Reader
import DocumentSchema.Schema.Basic
import DocumentSchema.Schema.Default

/-!
# Resolution of declarations

Resolving a declaration fills in every option that it leaves out and checks the ones it gives. The
first fault ends it, in key order and depth first; otherwise every array of objects adds a warning,
its own before those inside it. A field is indexed if neither it nor a field around it says
otherwise and none of them is an array of objects. Links stand at the top level only.
-/

set_option autoImplicit false

namespace DocumentSchema

namespace Resolution

def reservedStart : Char := '$'

def checkName (name path : String) : Except SchemaError Unit :=
  if name.toList.head? = some reservedStart then .error (.reservedName path) else .ok ()

def separator (path : String) (a : Attributes) : Except SchemaError Char :=
  match a.separator with
  | none => .ok standardSeparator
  | some s =>
    match s.toList with
    | [c] => .ok c
    | _ => .error (.invalidOption path (.separator s))

def elementKind (path name : String) : Except SchemaError Scalar :=
  match Scalar.read? name with
  | some kind => .ok kind
  | none => .error (.invalidOption path (.elementKind name))

def literals {α : Type} (path : String) (fault : Json → OptionFault) (read : Json → Option α) :
    List Json → Except SchemaError (List α)
  | [] => .ok []
  | json :: rest =>
    match read json with
    | none => .error (.invalidOption path (fault json))
    | some a => do
      let as ← literals path fault read rest
      return a :: as

def numberLiterals (path : String) (a : Attributes) : Except SchemaError (Option (List Binary64)) :=
  match a.literals with
  | none => .ok none
  | some list => (literals path .numberLiteral Json.toBinary? list).map some

def bigIntLiterals (path : String) (a : Attributes) : Except SchemaError (Option (List Int128)) :=
  match a.literals with
  | none => .ok none
  | some list => (literals path .bigIntLiteral Json.toInt128? list).map some

def weight (path : String) (a : Attributes) : Except SchemaError Binary64 :=
  let x := a.weight.getD standardWeight
  if x.isFinite && !x.le Floating.zero then .ok x else .error (.invalidOption path (.weight x))

def phonetic (path : String) (a : Attributes) : Except SchemaError (Option Phonetic) :=
  match a.phonetic with
  | none => .ok none
  | some name =>
    match Phonetic.read? name with
    | some p => .ok (some p)
    | none => .error (.invalidOption path (.phonetic name))

def scalar (path : String) (a : Attributes) : Scalar → Except SchemaError Kind
  | .string => do return .string (← separator path a) (a.caseSensitive.getD false)
  | .number => do return .number (← numberLiterals path a)
  | .bigInt => do return .bigInt (← bigIntLiterals path a)
  | .boolean => .ok .boolean
  | .text => do
    let x ← weight path a
    return .text x (← phonetic path a)
  | .date => .ok .date
  | .point => .ok .point

/-- The value of an option that the kind cannot do without. -/
def required {α : Type} (path : String) (requirement : Requirement) :
    Option α → Except SchemaError α
  | some a => .ok a
  | none => .error (.missingOption path requirement)

/-- The algorithm of a name in any case, with its options. -/
def algorithm (path : String) (a : Attributes) (name : String) : Except SchemaError Algorithm :=
  if name.toUpper = "FLAT" then .ok (.flat (a.blockSize.getD 1024))
  else if name.toUpper = "HNSW" then
    .ok (.graph (a.m.getD 16) (a.efConstruction.getD 200) (a.efRuntime.getD 10)
      (a.epsilon.getD (Floating.ofDecimal .binary64 false (Decimal.ofScaled 1 (-2)))))
  else .error (.invalidOption path (.algorithm name))

/-- The options of a vector: four must be there, and then all must be right. -/
def vector (path : String) (a : Attributes) : Except SchemaError VectorOptions := do
  let algorithmName ← required path .algorithm a.algorithm
  let metricName ← required path .metric a.metric
  let componentName ← required path .component a.component
  let dimension ← required path .dimension a.dimension
  if dimension = 0 then .error (.invalidOption path .zeroDimension)
  else do
    let algorithm ← algorithm path a algorithmName
    match Metric.read? metricName, Component.read? componentName with
    | none, _ => .error (.invalidOption path (.metric metricName))
    | _, none => .error (.invalidOption path (.component componentName))
    | some metric, some component =>
      return { algorithm, component, dimension, metric, initialCap := a.initialCap }

/-- The field of a resolved kind with its flags and its default; dates are never sorted by. -/
def field (path : String) (a : Attributes) (indexed : Bool) (kind : Kind) :
    Except SchemaError Field := do
  let sortable := kind.name ≠ .scalar .date && a.sortable.getD false
  let default ←
    match a.default with
    | none => pure none
    | some json => (Default.ofKind path kind json).map some
  return .mk kind (a.optional.getD false) sortable indexed default

def bareKind (path name : String) : Except SchemaError Kind :=
  match Bare.read? name with
  | some bare => .error (.bareKind path bare)
  | none =>
    match KindName.read? name with
    | some (.scalar kind) => scalar path { kind := name } kind
    | some .vector => .ok (.vector .standard)
    | some .array => .ok (.array (.scalar .string) standardSeparator)
    | _ => .error (.unknownKind path name)

/-- Refuses a table of options for a link below the top level; a bare link is refused anyway. -/
def refuseLink (path : String) : Declaration → Except SchemaError Unit
  | .shorthand _ => .ok ()
  | .full a _ _ _ =>
    if a.kind = "reference" ∨ a.kind = "relation" then
      .error (.invalidOption path (.linkBelowTop a.kind))
    else .ok ()

mutual

/-- Resolves a field; `inherited` tells whether the fields around it are indexed. -/
def resolveField (path : String) (inherited : Bool) :
    Declaration → Except SchemaError (Field × List Warning)
  | .shorthand name => do
    let resolved ← field path { kind := name } inherited (← bareKind path name)
    return (resolved, [])
  | .full a elements properties _ =>
    let indexed := inherited && a.indexed.getD true
    match KindName.read? a.kind with
    | none => .error (.unknownKind path a.kind)
    | some (.scalar kind) => do
      let resolved ← field path a indexed (← scalar path a kind)
      return (resolved, [])
    | some .vector => do
      let options ← vector path a
      let resolved ← field path a indexed (.vector options)
      return (resolved, [])
    | some .array => do
      let separator ← separator path a
      match elements with
      | none =>
        let resolved ← field path a indexed (.array (.scalar .string) separator)
        return (resolved, [])
      | some (.kind name) =>
        let kind ← elementKind path name
        let resolved ← field path a indexed (.array (.scalar kind) separator)
        return (resolved, [])
      | some (.fields declarations) =>
        let (fields, warnings) ← resolveFields path false declarations
        let resolved ← field path a false (.array (.object fields) separator)
        return (resolved, .unsearchableArray path :: warnings)
      | some (.positions _) => .error (.invalidOption path .positionsInArray)
    | some .tuple =>
      match elements with
      | none => .error (.emptyTuple path)
      | some (.positions []) => .error (.emptyTuple path)
      | some (.positions positions) => do
        let (elements, warnings) ← resolvePositions path indexed 0 positions
        let resolved ← field path a indexed (.tuple elements)
        return (resolved, warnings)
      | some _ => .error (.invalidOption path .elementsNotPositions)
    | some .object =>
      match properties with
      | none => .error (.missingOption path .properties)
      | some declarations => do
        let (fields, warnings) ← resolveFields path indexed declarations
        let resolved ← field path a indexed (.object fields)
        return (resolved, warnings)
termination_by structural d => d

/-- Resolves the positions of a tuple from an index on. -/
def resolvePositions (path : String) (indexed : Bool) (index : Nat) :
    List Position → Except SchemaError (List Element × List Warning)
  | [] => .ok ([], [])
  | position :: rest => do
    let (element, warnings) ←
      resolvePosition (path ++ "." ++ Decimal.natText index) indexed position
    let (elements, more) ← resolvePositions path indexed (index + 1) rest
    return (element :: elements, warnings ++ more)
termination_by structural ps => ps

def resolvePosition (path : String) (indexed : Bool) :
    Position → Except SchemaError (Element × List Warning)
  | .kind name => do
    let kind ← elementKind path name
    return (.scalar kind, [])
  | .fields declarations => do
    let (fields, warnings) ← resolveFields path indexed declarations
    return (.object fields, warnings)
termination_by structural p => p

def resolveFields (above : String) (inherited : Bool) :
    List (String × Declaration) → Except SchemaError (Entries Field × List Warning)
  | [] => .ok ([], [])
  | (name, declaration) :: rest => do
    let path := above ++ "." ++ name
    checkName name path
    refuseLink path declaration
    let (resolved, warnings) ← resolveField path inherited declaration
    let (fields, more) ← resolveFields above inherited rest
    return ((name, resolved) :: fields, warnings ++ more)
termination_by structural ds => ds

end

/-- What one declaration at the top level adds to a schema. -/
inductive Entry where
  | field (resolved : Field)
  | reference (reference : Reference)
  | relation (relation : Relation)

def resolveEntry (name : String) : Declaration → Except SchemaError (Entry × List Warning)
  | .shorthand kind => do
    let (resolved, warnings) ← resolveField name true (.shorthand kind)
    return (.field resolved, warnings)
  | .full a elements properties edge =>
    if a.kind = "reference" then do
      let target ← required name .target a.target
      return (.reference ⟨.read target, a.optional.getD false⟩, [])
    else if a.kind = "relation" then do
      let target ← required name .target a.target
      let (edge, warnings) ←
        match edge with
        | none => pure (none, [])
        | some declarations => do
          let (fields, warnings) ← resolveFields (name ++ ".meta") true declarations
          pure (some fields, warnings)
      return (.relation ⟨.read target, a.optional.getD false, a.indexed.getD true, edge⟩, warnings)
    else do
      let (resolved, warnings) ← resolveField name true (.full a elements properties edge)
      return (.field resolved, warnings)

/-- Puts what a declaration adds in front of a schema of later names. -/
def addEntry (name : String) (entry : Entry) (warnings : List Warning) (schema : Schema) : Schema :=
  match entry with
  | .field resolved =>
    { schema with fields := (name, resolved) :: schema.fields,
                  warnings := warnings ++ schema.warnings }
  | .reference reference =>
    { schema with references := (name, reference) :: schema.references,
                  warnings := warnings ++ schema.warnings }
  | .relation relation =>
    { schema with relations := (name, relation) :: schema.relations,
                  warnings := warnings ++ schema.warnings }

end Resolution

open Resolution in
def Schema.ofDeclarations : Declarations → Except SchemaError Schema
  | [] => .ok ⟨[], [], [], []⟩
  | (name, declaration) :: rest => do
    checkName name name
    let (entry, warnings) ← resolveEntry name declaration
    let schema ← Schema.ofDeclarations rest
    return addEntry name entry warnings schema

/-- Reads declarations from a JSON tree and resolves them. -/
def Schema.ofJson : Json → Except SchemaError Schema
  | .object members =>
    match declarationsOfMembers? members with
    | some declarations => Schema.ofDeclarations declarations
    | none => .error (.malformed .field)
  | tree => .error (.malformed (.root tree))

end DocumentSchema
