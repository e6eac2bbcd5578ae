import DocumentSchema.Proofs.Schema.Accepted
import DocumentSchema.Proofs.Schema.Default
import DocumentSchema.Schema.Declared

/-!
# Soundness of resolution

Whatever declarations resolution accepts, its fields satisfy the invariant of resolved fields, its
warnings are those that the fields themselves call for, in the order of the fields
(`Field.warnings`), and if a tree could hold the declarations then it can hold those of the fields.
The proof goes by recursion on the declarations, one case for each kind.
-/

set_option autoImplicit false

namespace DocumentSchema

/-! ## The warnings of fields -/

/-- The warning for an array of objects, which cannot be searched. -/
def Element.arrayWarnings (path : String) : Element → List Warning
  | .scalar _ => []
  | .object _ => [.unsearchableArray path]

mutual

/-- The warnings of a field, at every depth. -/
def Field.warnings (path : String) : Field → List Warning
  | .mk kind _ _ _ _ => kind.warnings path
termination_by structural field => field

/-- The warnings of a kind, at every depth. -/
def Kind.warnings (path : String) : Kind → List Warning
  | .array element _ => element.arrayWarnings path ++ element.warnings path
  | .tuple positions => positionsWarnings path 0 positions
  | .object fields => fieldsWarnings path fields
  | _ => []
termination_by structural kind => kind

/-- The warnings of an element, at every depth. -/
def Element.warnings (path : String) : Element → List Warning
  | .scalar _ => []
  | .object fields => fieldsWarnings path fields
termination_by structural element => element

/-- The warnings on the positions of a tuple from an index on. -/
def positionsWarnings (path : String) (index : Nat) : List Element → List Warning
  | [] => []
  | element :: elements =>
    element.warnings (path ++ "." ++ Decimal.natText index) ++
      positionsWarnings path (index + 1) elements
termination_by structural elements => elements

/-- The warnings of the fields of a level, one field after the other. -/
def fieldsWarnings (above : String) : List (String × Field) → List Warning
  | [] => []
  | (name, field) :: rest => field.warnings (above ++ "." ++ name) ++ fieldsWarnings above rest
termination_by structural fields => fields

end

/-- The fields of a level are declared one by one, each under its own name. -/
theorem declareFields_eq (fields : Entries Field) :
    declareFields fields = fields.mapValues Field.declare := by
  induction fields with
  | nil => rfl
  | cons first rest ih =>
    obtain ⟨name, field⟩ := first
    rw [declareFields, ih]
    rfl

/-- Declarations stay in the order of the fields. -/
theorem ordered_declareFields {fields : Entries Field} (h : fields.Ordered) :
    Entries.Ordered (declareFields fields) := by
  rw [declareFields_eq]
  exact h.mapValues _

/-- The positions of a tuple are declared one by one. -/
theorem declarePositions_eq (elements : List Element) :
    declarePositions elements = elements.map Element.declarePosition := by
  induction elements with
  | nil => rfl
  | cons element elements ih => rw [declarePositions, ih, List.map_cons]

/-- A tree can hold the precision of the search in a graph. -/
def Algorithm.Portable : Algorithm → Prop
  | .flat _ => True
  | .graph _ _ _ epsilon => epsilon.isFinite = true

/-- A tree can hold what a kind declares. -/
structure Kind.Portable (kind : Kind) : Prop where
  algorithm : ∀ options, kind = .vector options → options.algorithm.Portable
  elements : elementsSatisfy? Attributes.Portable kind.declareElements
  properties : declarationsSatisfy? Attributes.Portable kind.declareProperties

/-- A scalar kind declares neither elements nor properties nor an algorithm. -/
theorem Kind.portable_of_name {kind : Kind} {k : Scalar} (h : kind.name = .scalar k) :
    kind.Portable := by
  constructor
  · rintro options rfl
    cases h
  · cases kind with
    | array element separator => cases h
    | tuple positions => cases h
    | _ => exact trivial
  · cases kind with
    | object fields => cases h
    | _ => exact trivial

namespace Resolution

open Outcome

/-! ## The options of single fields -/

variable {path : String} {a : Attributes}

/-- An accepted name does not begin as the reserved ones do. -/
theorem checkName_eq_ok {name : String} {u : Unit} (h : checkName name path = .ok u) :
    name.toList.head? ≠ some reservedStart := by
  unfold checkName at h
  split at h
  · cases h
  · assumption

/-- Accepted numbers are finite. -/
theorem literals_finite {fault : Json → OptionFault} {list : List Json} {xs : List Binary64}
    (h : literals path fault Json.toBinary? list = .ok xs) : ∀ x ∈ xs, x.isFinite = true := by
  induction list generalizing xs with
  | nil =>
    obtain rfl := Except.ok.inj h
    simp
  | cons json rest ih =>
    rw [literals] at h
    split at h
    · cases h
    · rename_i x hx
      obtain ⟨others, hothers, h⟩ := bind_eq_ok.1 h
      obtain rfl := pure_eq_ok.1 h
      obtain ⟨y, rfl⟩ := Value.exists_of_toBinary? hx
      exact List.forall_mem_cons.2 ⟨rfl, ih hothers⟩

/-- An accepted weight is finite and positive. -/
theorem weight_eq_ok {x : Binary64} (h : weight path a = .ok x) :
    x.isFinite = true ∧ x.le Floating.zero = false := by
  unfold weight at h
  dsimp only at h
  split at h
  · rename_i hx
    obtain rfl := Except.ok.inj h
    rw [Bool.and_eq_true, Bool.not_eq_true'] at hx
    exact hx
  · cases h

/-- A scalar kind with its options has the name of the kind and satisfies the invariant. -/
theorem scalar_eq_ok {k : Scalar} {kind : Kind} (h : scalar path a k = .ok kind) (indexed : Bool) :
    kind.name = .scalar k ∧ kind.Resolved indexed ∧ kind.warnings path = [] := by
  cases k with
  | string =>
    obtain ⟨c, _, h⟩ := bind_eq_ok.1 h
    obtain rfl := pure_eq_ok.1 h
    exact ⟨rfl, trivial, rfl⟩
  | number =>
    obtain ⟨list, hlist, h⟩ := bind_eq_ok.1 h
    obtain rfl := pure_eq_ok.1 h
    refine ⟨rfl, ?_, rfl⟩
    intro xs hxs
    unfold numberLiterals at hlist
    split at hlist
    · obtain rfl := Except.ok.inj hlist
      cases hxs
    · obtain ⟨ys, hys, rfl⟩ := map_eq_ok.1 hlist
      obtain rfl := Option.some.inj hxs
      exact literals_finite hys
  | bigInt =>
    obtain ⟨list, _, h⟩ := bind_eq_ok.1 h
    obtain rfl := pure_eq_ok.1 h
    exact ⟨rfl, trivial, rfl⟩
  | boolean =>
    obtain rfl := Except.ok.inj h
    exact ⟨rfl, trivial, rfl⟩
  | text =>
    obtain ⟨x, hx, h⟩ := bind_eq_ok.1 h
    obtain ⟨p, _, h⟩ := bind_eq_ok.1 h
    obtain rfl := pure_eq_ok.1 h
    exact ⟨rfl, weight_eq_ok hx, rfl⟩
  | date =>
    obtain rfl := Except.ok.inj h
    exact ⟨rfl, trivial, rfl⟩
  | point =>
    obtain rfl := Except.ok.inj h
    exact ⟨rfl, trivial, rfl⟩

/-- The options of a vector have a positive dimension, and a finite precision if it was given so. -/
theorem vector_eq_ok {o : VectorOptions} (h : vector path a = .ok o) :
    o.dimension ≠ 0 ∧ (a.Portable → o.algorithm.Portable) := by
  obtain ⟨algorithmName, _, h⟩ := bind_eq_ok.1 h
  obtain ⟨metricName, _, h⟩ := bind_eq_ok.1 h
  obtain ⟨componentName, _, h⟩ := bind_eq_ok.1 h
  obtain ⟨dimension, _, h⟩ := bind_eq_ok.1 h
  split at h
  · cases h
  · rename_i hdimension
    obtain ⟨chosen, hchosen, h⟩ := bind_eq_ok.1 h
    split at h
    · cases h
    · cases h
    · obtain rfl := pure_eq_ok.1 h
      refine ⟨hdimension, ?_⟩
      intro hportable
      unfold algorithm at hchosen
      split at hchosen
      · obtain rfl := Except.ok.inj hchosen
        exact trivial
      · split at hchosen
        · obtain rfl := Except.ok.inj hchosen
          show (a.epsilon.getD _).isFinite = true
          cases hepsilon : a.epsilon with
          | none => decide +kernel
          | some x => exact hportable.epsilon_finite x hepsilon
        · cases hchosen

/-- A kind that needs no options satisfies the invariant. -/
theorem bareKind_eq_ok {name : String} {kind : Kind} (h : bareKind path name = .ok kind)
    (indexed : Bool) : kind.Resolved indexed ∧ kind.Portable ∧ kind.warnings path = [] := by
  unfold bareKind at h
  split at h
  · cases h
  · split at h
    · obtain ⟨hname, hresolved, hwarnings⟩ := scalar_eq_ok h indexed
      exact ⟨hresolved, Kind.portable_of_name hname, hwarnings⟩
    · obtain rfl := Except.ok.inj h
      refine ⟨?_, ⟨?_, trivial, trivial⟩, rfl⟩
      · show VectorOptions.standard.dimension ≠ 0
        decide
      · rintro _ ⟨⟩
        exact trivial
    · obtain rfl := Except.ok.inj h
      exact ⟨⟨by rintro _ ⟨⟩, trivial⟩, ⟨by rintro _ ⟨⟩, trivial, trivial⟩, rfl⟩
    · cases h

/-- Options with plain values that a tree can hold are declared by whatever they are resolved to. -/
theorem portable_declare {kind : Kind} {indexed : Bool} (hkind : kind.Resolved indexed)
    (hportable : kind.Portable) {flags : Attributes} (hdefault : flags.default ≠ some .null)
    (hweight : flags.weight = none) (hepsilon : flags.epsilon = none) :
    (kind.declare flags).Portable := by
  have hflags : flags.Portable := by
    refine ⟨hdefault, ?_, ?_⟩
    · rw [hweight]
      rintro x ⟨⟩
    · rw [hepsilon]
      rintro x ⟨⟩
  cases kind with
  | text weight phonetic =>
    refine ⟨hdefault, ?_, hflags.epsilon_finite⟩
    intro x hx
    obtain rfl := Option.some.inj hx
    exact hkind.1
  | vector options =>
    have halgorithm := hportable.algorithm options rfl
    obtain ⟨algorithm, component, dimension, metric, initialCap⟩ := options
    cases algorithm with
    | flat blockSize => exact ⟨hdefault, hflags.weight_finite, hflags.epsilon_finite⟩
    | graph m efConstruction efRuntime epsilon =>
      refine ⟨hdefault, hflags.weight_finite, ?_⟩
      intro x hx
      obtain rfl := Option.some.inj hx
      exact halgorithm
  | string separator caseSensitive => exact ⟨hdefault, hflags.weight_finite, hflags.epsilon_finite⟩
  | number literals => exact ⟨hdefault, hflags.weight_finite, hflags.epsilon_finite⟩
  | bigInt literals => exact ⟨hdefault, hflags.weight_finite, hflags.epsilon_finite⟩
  | array element separator => exact ⟨hdefault, hflags.weight_finite, hflags.epsilon_finite⟩
  | boolean => exact hflags
  | date => exact hflags
  | point => exact hflags
  | tuple positions => exact hflags
  | object fields => exact hflags

/-! ## Fields at every depth -/

/-- What is sound about a resolved field and its warnings; `p` holds of the options it came from. -/
structure SoundField (p : Attributes → Prop) (path : String) (inherited : Bool) (f : Field)
    (warnings : List Warning) : Prop where
  resolved : f.Resolved inherited
  warnings_eq : warnings = f.warnings path
  portable : (∀ a, p a → a.Portable) → f.declare.Satisfies Attributes.Portable

/-- What is sound about the resolved fields of one level and their warnings. -/
structure SoundFields (p : Attributes → Prop) (above : String) (inherited : Bool)
    (declarations : Declarations) (fields : Entries Field) (warnings : List Warning) : Prop where
  keys : fields.keys = declarations.keys
  resolved : fieldsResolved inherited fields
  warnings_eq : warnings = fieldsWarnings above fields
  portable : (∀ a, p a → a.Portable) →
    declarationsSatisfy Attributes.Portable (declareFields fields)

/-- The field of a kind with its flags, and with the default that the kind keeps. -/
theorem field_eq_ok {indexed : Bool} {kind : Kind} {f : Field}
    (h : field path a indexed kind = .ok f) :
    ∃ default, f = .mk kind (a.optional.getD false)
        (kind.name ≠ .scalar .date && a.sortable.getD false) indexed default ∧
      (a.default = none ∧ default = none ∨ ∃ json v, a.default = some json ∧
        default = some v ∧ Default.ofKind path kind json = .ok v) := by
  unfold field at h
  dsimp only at h
  split at h
  · rename_i hnone
    obtain ⟨default, hdefault, h⟩ := bind_eq_ok.1 h
    obtain rfl := pure_eq_ok.1 hdefault
    obtain rfl := pure_eq_ok.1 h
    exact ⟨none, rfl, Or.inl ⟨hnone, rfl⟩⟩
  · rename_i json hjson
    obtain ⟨default, hdefault, h⟩ := bind_eq_ok.1 h
    obtain ⟨v, hv, rfl⟩ := map_eq_ok.1 hdefault
    obtain rfl := pure_eq_ok.1 h
    exact ⟨some v, rfl, Or.inr ⟨json, v, hjson, rfl, hv⟩⟩

/-- Fields are in the order of the declarations that they came from. -/
theorem SoundFields.ordered {p : Attributes → Prop} {above : String} {inherited : Bool}
    {declarations : Declarations} {fields : Entries Field} {warnings : List Warning}
    (h : SoundFields p above inherited declarations fields warnings)
    (hordered : Entries.Ordered declarations) : fields.Ordered :=
  hordered.of_keys_eq h.keys

/-- What is sound about a resolved position of a tuple and its warnings. -/
structure SoundElement (p : Attributes → Prop) (path : String) (indexed : Bool) (element : Element)
    (warnings : List Warning) : Prop where
  resolved : element.Resolved indexed
  warnings_eq : warnings = element.warnings path
  portable : (∀ a, p a → a.Portable) → element.declarePosition.Satisfies Attributes.Portable

/-- What is sound about the resolved positions of a tuple from an index on and their warnings. -/
structure SoundElements (p : Attributes → Prop) (path : String) (indexed : Bool) (index : Nat)
    (positions : List Position) (elements : List Element) (warnings : List Warning) : Prop where
  length : elements.length = positions.length
  resolved : positionsResolved indexed elements
  warnings_eq : warnings = positionsWarnings path index elements
  portable : (∀ a, p a → a.Portable) →
    positionsSatisfy Attributes.Portable (declarePositions elements)

/-- A kind that satisfies the invariant makes a sound field. -/
theorem soundField {p : Attributes → Prop} (ha : a.WellFormed)
    (hportable : (∀ a, p a → a.Portable) → a.Portable) {inherited indexed : Bool}
    (hindexed : indexed = true → inherited = true) {kind : Kind} (hkind : kind.Resolved indexed)
    (hkindPortable : (∀ a, p a → a.Portable) → kind.Portable) {f : Field}
    (h : field path a indexed kind = .ok f) :
    SoundField p path inherited f (kind.warnings path) := by
  obtain ⟨default, rfl, hdefault⟩ := field_eq_ok h
  -- the default is coerced, so the kind keeps it
  have hkept : ∀ v, default = some v → kind.Keeps v ∧
      ((∀ a, p a → a.Portable) → v.toJson ≠ .null) := by
    rintro v rfl
    rcases hdefault with ⟨_, hnone⟩ | ⟨json, w, hjson, hv, hw⟩
    · cases hnone
    · obtain rfl := Option.some.inj hv
      refine ⟨Default.keeps_of_ofKind kind hkind (ha json hjson) hw, ?_⟩
      intro hall
      refine Default.toJson_ne_null ?_ hw
      rintro rfl
      exact (hportable hall).default_ne_null hjson
  refine ⟨⟨hindexed, ?_, hkind, fun v hv => (hkept v hv).1⟩, rfl, ?_⟩
  · intro hdate
    simp [hdate]
  · intro hall
    refine ⟨portable_declare hkind (hkindPortable hall) ?_ rfl rfl, (hkindPortable hall).elements,
      (hkindPortable hall).properties, trivial⟩
    cases default with
    | none => rintro ⟨⟩
    | some v =>
      intro hnull
      exact (hkept v rfl).2 hall (Option.some.inj hnull)

/-- An array of scalars makes a sound field. -/
theorem soundField_scalars {p : Attributes → Prop} (ha : a.WellFormed)
    (hportable : (∀ a, p a → a.Portable) → a.Portable) {inherited indexed : Bool}
    (hindexed : indexed = true → inherited = true) (kind : Scalar) (separator : Char) {f : Field}
    (h : field path a indexed (.array (.scalar kind) separator) = .ok f) :
    SoundField p path inherited f [] := by
  have hresolved : (Kind.array (.scalar kind) separator).Resolved indexed :=
    ⟨by rintro _ ⟨⟩, trivial⟩
  have hkindPortable : (Kind.array (.scalar kind) separator).Portable :=
    ⟨by rintro _ ⟨⟩, trivial, trivial⟩
  exact soundField ha hportable hindexed hresolved (fun _ => hkindPortable) h

/-- An array of objects with sound fields makes a sound field, since it is not indexed. -/
theorem soundField_objects {p : Attributes → Prop} (ha : a.WellFormed)
    (hportable : (∀ a, p a → a.Portable) → a.Portable) {inherited : Bool} {above : String}
    {declarations : Declarations} (hordered : Entries.Ordered declarations)
    {fields : Entries Field} {warnings : List Warning}
    (hfields : SoundFields p above false declarations fields warnings) {separator : Char}
    {f : Field} (h : field path a false (.array (.object fields) separator) = .ok f) :
    SoundField p path inherited f ((Kind.array (.object fields) separator).warnings path) := by
  have hsorted := hfields.ordered hordered
  have hresolved : (Kind.array (.object fields) separator).Resolved false :=
    ⟨fun _ _ => rfl, hsorted, hfields.resolved⟩
  have hkindPortable : (∀ a, p a → a.Portable) →
      (Kind.array (.object fields) separator).Portable := by
    intro hall
    exact ⟨by rintro _ ⟨⟩, ⟨ordered_declareFields hsorted, hfields.portable hall⟩, trivial⟩
  exact soundField ha hportable (fun h => absurd h Bool.false_ne_true) hresolved hkindPortable h

/-- A tuple with sound positions makes a sound field. -/
theorem soundField_tuple {p : Attributes → Prop} (ha : a.WellFormed)
    (hportable : (∀ a, p a → a.Portable) → a.Portable) {inherited indexed : Bool}
    (hindexed : indexed = true → inherited = true) {below : String} {index : Nat}
    {positions : List Position} (hnonempty : positions ≠ [])
    (hcount : positions.length < countLimit) {elements : List Element} {warnings : List Warning}
    (helements : SoundElements p below indexed index positions elements warnings) {f : Field}
    (h : field path a indexed (.tuple elements) = .ok f) :
    SoundField p path inherited f ((Kind.tuple elements).warnings path) := by
  have hlength : elements.length < countLimit := by
    rw [helements.length]
    exact hcount
  have hsome : elements ≠ [] := by
    intro hnil
    apply hnonempty
    rw [← List.length_eq_zero_iff, ← helements.length, hnil]
    rfl
  have hresolved : (Kind.tuple elements).Resolved indexed :=
    ⟨hsome, hlength, helements.resolved⟩
  have hkindPortable : (∀ a, p a → a.Portable) → (Kind.tuple elements).Portable := by
    intro hall
    refine ⟨by rintro _ ⟨⟩, ⟨?_, helements.portable hall⟩, trivial⟩
    rw [declarePositions_eq, List.length_map]
    exact hlength
  exact soundField ha hportable hindexed hresolved hkindPortable h

/-- An object with sound fields makes a sound field. -/
theorem soundField_object {p : Attributes → Prop} (ha : a.WellFormed)
    (hportable : (∀ a, p a → a.Portable) → a.Portable) {inherited indexed : Bool}
    (hindexed : indexed = true → inherited = true) {above : String} {declarations : Declarations}
    (hordered : Entries.Ordered declarations) {fields : Entries Field} {warnings : List Warning}
    (hfields : SoundFields p above indexed declarations fields warnings) {f : Field}
    (h : field path a indexed (.object fields) = .ok f) :
    SoundField p path inherited f ((Kind.object fields).warnings path) := by
  have hsorted := hfields.ordered hordered
  have hresolved : (Kind.object fields).Resolved indexed := ⟨hsorted, hfields.resolved⟩
  have hkindPortable : (∀ a, p a → a.Portable) → (Kind.object fields).Portable := by
    intro hall
    exact ⟨by rintro _ ⟨⟩, trivial, ordered_declareFields hsorted, hfields.portable hall⟩
  exact soundField ha hportable hindexed hresolved hkindPortable h

mutual

/-- Resolution of a field is sound. -/
theorem sound_resolveField {p : Attributes → Prop} (hp : ∀ a, p a → a.WellFormed)
    (d : Declaration) (hd : d.Satisfies p) {path : String} {inherited : Bool} {f : Field}
    {ws : List Warning} (h : resolveField path inherited d = .ok (f, ws)) :
    SoundField p path inherited f ws := by
  cases resolves_of_resolveField h with
  | bare hkind hfield =>
    obtain ⟨hresolved, hportable, hwarnings⟩ := bareKind_eq_ok hkind inherited
    exact hwarnings ▸ soundField (by rintro json ⟨⟩)
      (fun _ => ⟨by rintro ⟨⟩, by rintro x ⟨⟩, by rintro x ⟨⟩⟩) id hresolved (fun _ => hportable)
      hfield
  | scalar a _ hkind hfield =>
    obtain ⟨hname, hresolved, hwarnings⟩ := scalar_eq_ok hkind (searched inherited a)
    exact hwarnings ▸ soundField (hp a hd.1) (fun hall => hall a hd.1) inherited_of_searched
      hresolved (fun _ => Kind.portable_of_name hname) hfield
  | vector a options _ hoptions hfield =>
    obtain ⟨hdimension, halgorithm⟩ := vector_eq_ok hoptions
    have hresolved : (Kind.vector options).Resolved (searched inherited a) := hdimension
    -- the options of a vector are portable only where those declared are
    have hkindPortable : (∀ a, p a → a.Portable) → (Kind.vector options).Portable := by
      intro hall
      refine ⟨?_, trivial, trivial⟩
      rintro _ ⟨⟩
      exact halgorithm (hall a hd.1)
    exact soundField (hp a hd.1) (fun hall => hall a hd.1) inherited_of_searched hresolved
      hkindPortable hfield
  | texts a c _ _ hfield =>
    exact soundField_scalars (hp a hd.1) (fun hall => hall a hd.1) inherited_of_searched .string c
      hfield
  | scalars a kind c _ _ _ hfield =>
    exact soundField_scalars (hp a hd.1) (fun hall => hall a hd.1) inherited_of_searched kind c
      hfield
  | objects a declarations _ _ hfields hfield =>
    obtain ⟨ha, helements, _, _⟩ := hd
    have hsound := sound_resolveFields hp declarations helements.2 hfields
    rw [hsound.warnings_eq]
    exact soundField_objects (hp a ha) (fun hall => hall a ha) helements.1 hsound hfield
  | tuple a positions _ hnonempty hpositions hfield =>
    obtain ⟨ha, helements, _, _⟩ := hd
    have hsound := sound_resolvePositions hp positions helements.2 hpositions
    rw [hsound.warnings_eq]
    exact soundField_tuple (hp a ha) (fun hall => hall a ha) inherited_of_searched hnonempty
      helements.1 hsound hfield
  | object a declarations _ hfields hfield =>
    obtain ⟨ha, _, hproperties, _⟩ := hd
    have hsound := sound_resolveFields hp declarations hproperties.2 hfields
    rw [hsound.warnings_eq]
    exact soundField_object (hp a ha) (fun hall => hall a ha) inherited_of_searched hproperties.1
      hsound hfield
termination_by structural d

/-- Resolution of the positions of a tuple is sound. -/
theorem sound_resolvePositions {p : Attributes → Prop} (hp : ∀ a, p a → a.WellFormed)
    (positions : List Position) (hpositions : positionsSatisfy p positions) {path : String}
    {indexed : Bool} {index : Nat} {elements : List Element} {ws : List Warning}
    (h : resolvePositions path indexed index positions = .ok (elements, ws)) :
    SoundElements p path indexed index positions elements ws := by
  cases positions with
  | nil =>
    obtain ⟨rfl, rfl⟩ := Prod.mk.inj (Except.ok.inj h)
    exact ⟨rfl, trivial, rfl, fun _ => trivial⟩
  | cons position positions =>
    obtain ⟨element, own, others, more, hfirst, hmore, rfl, rfl⟩ := resolvePositions_cons_eq_ok h
    have hfirst := sound_resolvePosition hp position hpositions.1 hfirst
    have hmore := sound_resolvePositions hp positions hpositions.2 hmore
    refine ⟨congrArg Nat.succ hmore.length, ⟨hfirst.resolved, hmore.resolved⟩, ?_,
      fun hall => ⟨hfirst.portable hall, hmore.portable hall⟩⟩
    rw [hfirst.warnings_eq, hmore.warnings_eq, positionsWarnings]
termination_by structural positions

/-- Resolution of one position is sound. -/
theorem sound_resolvePosition {p : Attributes → Prop} (hp : ∀ a, p a → a.WellFormed)
    (position : Position) (hposition : position.Satisfies p) {path : String} {indexed : Bool}
    {element : Element} {ws : List Warning}
    (h : resolvePosition path indexed position = .ok (element, ws)) :
    SoundElement p path indexed element ws := by
  cases position with
  | kind name =>
    obtain ⟨kind, _, rfl, rfl⟩ := resolvePosition_kind h
    exact ⟨trivial, rfl, fun _ => trivial⟩
  | fields declarations =>
    obtain ⟨fields, hfields, rfl⟩ := resolvePosition_fields h
    have hsound := sound_resolveFields hp declarations hposition.2 hfields
    have hordered := hsound.ordered hposition.1
    exact ⟨⟨hordered, hsound.resolved⟩, hsound.warnings_eq,
      fun hall => ⟨ordered_declareFields hordered, hsound.portable hall⟩⟩
termination_by structural position

/-- Resolution of the fields of one level is sound. -/
theorem sound_resolveFields {p : Attributes → Prop} (hp : ∀ a, p a → a.WellFormed)
    (declarations : List (String × Declaration)) (hdeclarations : declarationsSatisfy p declarations)
    {above : String} {inherited : Bool} {fields : Entries Field} {ws : List Warning}
    (h : resolveFields above inherited declarations = .ok (fields, ws)) :
    SoundFields p above inherited declarations fields ws := by
  cases declarations with
  | nil =>
    obtain ⟨rfl, rfl⟩ := Prod.mk.inj (Except.ok.inj h)
    exact ⟨rfl, trivial, rfl, fun _ => trivial⟩
  | cons first rest =>
    obtain ⟨name, declaration⟩ := first
    obtain ⟨f, own, others, more, hname, hf, hmore, rfl, rfl⟩ := resolveFields_cons_eq_ok h
    have hf := sound_resolveField hp declaration hdeclarations.1 hf
    have hmore := sound_resolveFields hp rest hdeclarations.2 hmore
    refine ⟨congrArg (name :: ·) hmore.keys, ⟨checkName_eq_ok hname, hf.resolved, hmore.resolved⟩,
      ?_, fun hall => ⟨hf.portable hall, hmore.portable hall⟩⟩
    rw [hf.warnings_eq, hmore.warnings_eq, fieldsWarnings]
termination_by structural declarations

end

end Resolution

end DocumentSchema
