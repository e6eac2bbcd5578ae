import DocumentSchema.Proofs.Schema.Resolution

/-!
# Declared fields resolve to themselves

The declaration of a field gives every option, and resolving it gives the field again with the
warnings that it calls for (`resolveField_declare`). The flags that resolution forces are already as
it would force them: a field is indexed only below indexed ones, and no date is sorted by.
-/

set_option autoImplicit false

namespace DocumentSchema

/-! ## Names read back -/

/-- A kind is read from its name. -/
theorem KindName.read?_label (name : KindName) : KindName.read? name.label = some name := by
  cases name with
  | scalar kind => cases kind <;> decide
  | vector => decide
  | array => decide
  | tuple => decide
  | object => decide

/-- A kind of scalar is read from its name. -/
theorem Scalar.read?_label (kind : Scalar) : Scalar.read? kind.label = some kind := by
  cases kind <;> decide

/-- A phonetic matcher is read from its name. -/
theorem Phonetic.read?_label (p : Phonetic) : Phonetic.read? p.label = some p := by
  cases p <;> decide

/-- A metric is read from its name. -/
theorem Metric.read?_label (metric : Metric) : Metric.read? metric.label = some metric := by
  cases metric <;> decide +kernel

/-- A type of components is read from its name. -/
theorem Component.read?_label (component : Component) :
    Component.read? component.label = some component := by
  cases component <;> decide +kernel

/-- No kind of field has the name of a link. -/
theorem KindName.label_ne_link (name : KindName) :
    name.label ≠ "reference" ∧ name.label ≠ "relation" := by
  cases name with
  | scalar kind => cases kind <;> decide
  | vector => decide
  | array => decide
  | tuple => decide
  | object => decide

namespace Resolution

open Outcome

/-! ## Options read back -/

variable {path : String} {a : Attributes}

/-- A separator that is declared is the separator. -/
theorem separator_declared {c : Char} (h : a.separator = some c.toString) :
    separator path a = .ok c := by
  have hlist : c.toString.toList = [c] := by simp
  rw [separator, h]
  simp only [hlist]

/-- Literals that are read back one by one are read back together. -/
theorem literals_declared {α : Type} {fault : Json → OptionFault} {read : Json → Option α}
    {write : α → Json} {xs : List α} (h : ∀ x ∈ xs, read (write x) = some x) :
    literals path fault read (xs.map write) = .ok xs := by
  induction xs with
  | nil => rfl
  | cons x xs ih =>
    obtain ⟨hx, hxs⟩ := List.forall_mem_cons.1 h
    rw [List.map_cons, literals, hx]
    simp only [ih hxs]
    rfl

/-- Finite numbers that are declared as literals are the literals. -/
theorem numberLiterals_declared {list : Option (List Binary64)}
    (hlist : ∀ xs, list = some xs → ∀ x ∈ xs, x.isFinite = true)
    (h : a.literals = list.map fun xs => xs.map Json.ofBinary) :
    numberLiterals path a = .ok list := by
  rw [numberLiterals, h]
  cases list with
  | none => rfl
  | some xs =>
    rw [Option.map_some]
    dsimp only
    rw [literals_declared]
    · rfl
    · intro x hx
      obtain ⟨y, rfl⟩ := Floating.exists_of_isFinite (hlist xs rfl x hx)
      rfl

/-- Integers that are declared as literals, in texts, are the literals. -/
theorem bigIntLiterals_declared {list : Option (List Int128)}
    (h : a.literals = list.map fun is => is.map fun i => .string i.text) :
    bigIntLiterals path a = .ok list := by
  rw [bigIntLiterals, h]
  cases list with
  | none => rfl
  | some is =>
    rw [Option.map_some]
    dsimp only
    rw [literals_declared]
    · rfl
    · intro i _
      exact Int128.read_text i

/-- A finite positive weight that is declared is the weight. -/
theorem weight_declared {x : Binary64} (hfinite : x.isFinite = true)
    (hpositive : x.le Floating.zero = false) (h : a.weight = some x) : weight path a = .ok x := by
  rw [weight, h]
  simp [hfinite, hpositive]

/-- A phonetic matcher that is declared, or none, is the matcher. -/
theorem phonetic_declared {p : Option Phonetic} (h : a.phonetic = p.map Phonetic.label) :
    phonetic path a = .ok p := by
  rw [phonetic, h]
  cases p with
  | none => rfl
  | some p => simp [Phonetic.read?_label]

/-- The options of a vector are read back from their declaration. -/
theorem vector_declared (o : VectorOptions) (ho : o.dimension ≠ 0) :
    vector path (o.declare a) = .ok o := by
  obtain ⟨chosen, component, dimension, metric, initialCap⟩ := o
  have hflat : "FLAT".toUpper = "FLAT" := by decide +kernel
  have hgraph : "HNSW".toUpper = "HNSW" := by decide +kernel
  cases chosen with
  | flat blockSize =>
    simp only [vector, VectorOptions.declare, Algorithm.declare, Algorithm.label, required, ok_bind,
      if_neg ho, algorithm, hflat, if_true, Option.getD_some, Metric.read?_label,
      Component.read?_label]
    rfl
  | graph m efConstruction efRuntime epsilon =>
    simp only [vector, VectorOptions.declare, Algorithm.declare, Algorithm.label, required, ok_bind,
      if_neg ho, algorithm, hgraph, if_true, Option.getD_some, Metric.read?_label,
      Component.read?_label]
    rfl

/-- The options of a kind leave the flags of its field alone. -/
theorem flags_declare (kind : Kind) (a : Attributes) :
    (kind.declare a).kind = a.kind ∧ (kind.declare a).optional = a.optional ∧
      (kind.declare a).sortable = a.sortable ∧ (kind.declare a).indexed = a.indexed ∧
        (kind.declare a).default = a.default := by
  cases kind with
  | vector o =>
    obtain ⟨chosen, component, dimension, metric, initialCap⟩ := o
    cases chosen <;> exact ⟨rfl, rfl, rfl, rfl, rfl⟩
  | _ => exact ⟨rfl, rfl, rfl, rfl, rfl⟩

/-- A field is made again from its kind and the flags that it declares. -/
theorem field_declared {kind : Kind} {optional sortable indexed inherited : Bool}
    {default : Option Value}
    (h : (Field.mk kind optional sortable indexed default).Resolved inherited) :
    field path (kind.declare (Field.flags kind.name optional sortable indexed default)) indexed
      kind = .ok (.mk kind optional sortable indexed default) := by
  obtain ⟨_, hdate, hkind, hdefault⟩ := h
  obtain ⟨_, hoptional, hsortable, _, hdeclared⟩ :=
    flags_declare kind (Field.flags kind.name optional sortable indexed default)
  have hsorted : (decide (kind.name ≠ .scalar .date) && sortable) = sortable := by
    by_cases hname : kind.name = .scalar .date
    · rw [hdate hname, Bool.and_false]
    · simp [hname]
  rw [field, hoptional, hsortable, hdeclared]
  cases default with
  | none =>
    show Except.ok (Field.mk kind optional (decide (kind.name ≠ .scalar .date) && sortable) indexed
      none) = _
    rw [hsorted]
  | some v =>
    have hcoerced := Default.ofKind_toJson kind hkind path (hdefault v rfl)
    show ((Default.ofKind path kind v.toJson).map some >>= fun default => pure (Field.mk kind optional
      (decide (kind.name ≠ .scalar .date) && sortable) indexed default)) = _
    rw [hcoerced, hsorted]
    rfl

/-- A field, declared again, is not refused as a link. -/
theorem refuseLink_declare (f : Field) : refuseLink path f.declare = .ok () := by
  obtain ⟨kind, optional, sortable, indexed, default⟩ := f
  rw [Field.declare, refuseLink, (flags_declare kind _).1]
  exact if_neg (not_or.2 kind.name.label_ne_link)

/-- A kind of scalar is accepted for elements by its name. -/
theorem elementKind_label (kind : Scalar) : elementKind path kind.label = .ok kind := by
  rw [elementKind, Scalar.read?_label]

/-- The options of a scalar kind are read back from their declaration. -/
theorem scalar_declared {kind : Kind} {k : Scalar} (hname : kind.name = .scalar k) {indexed : Bool}
    (hkind : kind.Resolved indexed) (a : Attributes) : scalar path (kind.declare a) k = .ok kind := by
  cases kind with
  | string separator caseSensitive =>
    obtain rfl := KindName.scalar.inj hname
    rw [scalar, separator_declared rfl]
    rfl
  | number list =>
    obtain rfl := KindName.scalar.inj hname
    rw [scalar, numberLiterals_declared hkind rfl]
    rfl
  | bigInt list =>
    obtain rfl := KindName.scalar.inj hname
    rw [scalar, bigIntLiterals_declared rfl]
    rfl
  | text x p =>
    obtain rfl := KindName.scalar.inj hname
    rw [scalar, weight_declared hkind.1 hkind.2 rfl, ok_bind, phonetic_declared rfl]
    rfl
  | boolean =>
    obtain rfl := KindName.scalar.inj hname
    rfl
  | date =>
    obtain rfl := KindName.scalar.inj hname
    rfl
  | point =>
    obtain rfl := KindName.scalar.inj hname
    rfl
  | vector options => cases hname
  | array element separator => cases hname
  | tuple positions => cases hname
  | object fields => cases hname

/-- A declared field keeps its index flag and the name of its kind. -/
theorem indexed_declared (kind : Kind) (optional sortable : Bool) (default : Option Value)
    {indexed inherited : Bool} (hindexed : indexed = true → inherited = true) :
    (inherited && ((kind.declare
      (Field.flags kind.name optional sortable indexed default)).indexed.getD true)) = indexed ∧
    KindName.read? (kind.declare (Field.flags kind.name optional sortable indexed default)).kind =
      some kind.name := by
  obtain ⟨hname, _, _, hflag, _⟩ :=
    flags_declare kind (Field.flags kind.name optional sortable indexed default)
  refine ⟨?_, ?_⟩
  · rw [hflag]
    cases indexed with
    | true => rw [hindexed rfl]; rfl
    | false => exact Bool.and_false _
  · rw [hname]
    exact KindName.read?_label kind.name

/-- A scalar field is resolved from its declaration. -/
theorem resolveField_scalar {kind : Kind} {k : Scalar} (hname : kind.name = .scalar k)
    {optional sortable indexed inherited : Bool} {default : Option Value}
    (h : (Field.mk kind optional sortable indexed default).Resolved inherited) :
    resolveField path inherited (Field.mk kind optional sortable indexed default).declare =
      .ok (.mk kind optional sortable indexed default, []) := by
  obtain ⟨hindexed, _, hkind, _⟩ := id h
  obtain ⟨hflag, hread⟩ := indexed_declared kind optional sortable default hindexed
  rw [Field.declare]
  unfold resolveField
  dsimp only
  rw [hflag, hread, hname]
  dsimp only
  rw [← hname, scalar_declared hname hkind, ok_bind, field_declared h]
  rfl

mutual

/-- Resolving the declaration of a field gives the field, with the warnings that it calls for. -/
theorem resolveField_declare (f : Field) {inherited : Bool} (h : f.Resolved inherited)
    (path : String) : resolveField path inherited f.declare = .ok (f, f.warnings path) := by
  obtain ⟨kind, optional, sortable, indexed, default⟩ := f
  obtain ⟨hindexed, _, hkind, _⟩ := id h
  obtain ⟨hflag, hread⟩ := indexed_declared kind optional sortable default hindexed
  cases kind with
  | vector options =>
    rw [Field.declare]
    unfold resolveField
    dsimp only
    rw [hflag, hread]
    show (vector path (options.declare _) >>= _) = _
    rw [vector_declared options hkind, ok_bind, field_declared h]
    rfl
  | array element separator =>
    rw [Field.declare]
    unfold resolveField
    dsimp only
    rw [hflag, hread]
    show (Resolution.separator path (Kind.declare _ (.array element separator)) >>= _) = _
    rw [separator_declared rfl, ok_bind]
    cases element with
    | scalar kind =>
      show (elementKind path kind.label >>= _) = _
      rw [elementKind_label, ok_bind, field_declared h]
      rfl
    | object fields =>
      -- an array of objects is never searched, so its objects are resolved with the flag off
      obtain rfl := hkind.1 fields rfl
      show (resolveFields path false (declareFields fields) >>= _) = _
      rw [resolveFields_declare fields hkind.2.2, ok_bind]
      dsimp only
      rw [field_declared h]
      rfl
  | tuple positions =>
    obtain ⟨hnonempty, _, hpositions⟩ := hkind
    -- a tuple without positions is refused, and no resolved field is one
    have ih := resolvePositions_declare positions hpositions path 0
    cases positions with
    | nil => exact absurd rfl hnonempty
    | cons element elements =>
      rw [Field.declare]
      unfold resolveField
      dsimp only
      rw [hflag, hread]
      show (resolvePositions path indexed 0 (declarePositions (element :: elements)) >>= _) = _
      rw [ih, ok_bind]
      dsimp only
      rw [field_declared h]
      rfl
  | object fields =>
    rw [Field.declare]
    unfold resolveField
    dsimp only
    rw [hflag, hread]
    show (resolveFields path indexed (declareFields fields) >>= _) = _
    rw [resolveFields_declare fields hkind.2, ok_bind]
    dsimp only
    rw [field_declared h]
    rfl
  | _ => exact resolveField_scalar rfl h
termination_by structural f

/-- Resolving the declarations of positions gives the positions. -/
theorem resolvePositions_declare (elements : List Element) {indexed : Bool}
    (h : positionsResolved indexed elements) (path : String) (index : Nat) :
    resolvePositions path indexed index (declarePositions elements) =
      .ok (elements, positionsWarnings path index elements) := by
  cases elements with
  | nil => rfl
  | cons element elements =>
    obtain ⟨helement, helements⟩ := h
    have ih := resolvePositions_declare elements helements path (index + 1)
    cases element with
    | scalar kind =>
      rw [declarePositions, Element.declarePosition, resolvePositions, resolvePosition,
        elementKind_label, ok_bind]
      show (resolvePositions path indexed (index + 1) (declarePositions elements) >>= _) = _
      rw [ih]
      rfl
    | object fields =>
      rw [declarePositions, Element.declarePosition, resolvePositions, resolvePosition,
        resolveFields_declare fields helement.2, ok_bind]
      show (resolvePositions path indexed (index + 1) (declarePositions elements) >>= _) = _
      rw [ih]
      rfl
termination_by structural elements

/-- Resolving the declarations of fields gives the fields. -/
theorem resolveFields_declare (fields : List (String × Field)) {inherited : Bool}
    (h : fieldsResolved inherited fields) (above : String) :
    resolveFields above inherited (declareFields fields) =
      .ok (fields, fieldsWarnings above fields) := by
  cases fields with
  | nil => rfl
  | cons first rest =>
    obtain ⟨name, field⟩ := first
    obtain ⟨hname, hfield, hrest⟩ := h
    rw [declareFields, resolveFields]
    dsimp only
    rw [checkName, if_neg hname, ok_bind, refuseLink_declare, ok_bind,
      resolveField_declare field hfield, ok_bind]
    dsimp only
    rw [resolveFields_declare rest hrest]
    rfl
termination_by structural fields

end

end Resolution

end DocumentSchema
