import DocumentSchema.Proofs.Schema.Correspondence

/-!
# Search below fields that are not searched

A field inside others is reached by steps: through the properties of an object, the elements of an
array or one position of a tuple. The same steps lead through the declarations (`along?`), and what
they meet on both sides decides whether the field is searched: neither it nor a field around it is
declared out of the index, and none of them is an array of objects (`Schema.indexed_iff`).

Resolution hands the flag down by four routes, and one of them changes it on the way. What it does
to one field is said once (`Resolution.passes_of_resolveField`), and below it is the same again.
-/

set_option autoImplicit false

namespace DocumentSchema

/-! ## Fields inside fields -/

/-- The ways from a field to the fields inside it. -/
inductive Passage where
  | properties
  | elements
  | position (index : Nat)

/-- The fields of an element, if it is an object. -/
def Element.fields? : Element → Option (Entries Field)
  | .scalar _ => none
  | .object fields => some fields

/-- The fields inside a field of the kind. -/
def Kind.below? : Kind → Passage → Option (Entries Field)
  | .object fields, .properties => some fields
  | .array element _, .elements => element.fields?
  | .tuple positions, .position index => positions[index]?.bind Element.fields?
  | _, _ => none

/-- Whether a kind is of arrays of objects. -/
def Kind.holdsObjects : Kind → Bool
  | .array (.object _) _ => true
  | _ => false

/-- The fields that a passage leads to inside a field. -/
def Field.below? (f : Field) (passage : Passage) : Option (Entries Field) :=
  f.kind.below? passage

/-- Whether the field is an array of objects. -/
def Field.holdsObjects (f : Field) : Bool := f.kind.holdsObjects

/-- The declarations inside a position, if there are some. -/
def Position.fields? : Position → Option Declarations
  | .kind _ => none
  | .fields declarations => some declarations

/-- The declarations that a passage leads to inside elements. -/
def Elements.below? : Elements → Passage → Option Declarations
  | .fields declarations, .elements => some declarations
  | .positions members, .position index => members[index]?.bind Position.fields?
  | _, _ => none

/-- The declarations inside a declaration; a kind takes up its own elements or properties only. -/
def Declaration.below? : Declaration → Passage → Option Declarations
  | .shorthand _, _ => none
  | .full a elements properties _, passage =>
    match KindName.read? a.kind, passage with
    | some .object, .properties => properties
    | some .array, .elements => elements.bind (·.below? .elements)
    | some .tuple, .position index => elements.bind (·.below? (.position index))
    | _, _ => none

/-- What a declaration says about the index, if it says anything. -/
def Declaration.indexed? : Declaration → Option Bool
  | .shorthand _ => none
  | .full a _ _ _ => a.indexed

/-- What stands at a name after further steps inwards, with all that stands around it. -/
def along? {α : Type} (below? : α → Passage → Option (Entries α)) (entries : Entries α)
    (name : String) : List (Passage × String) → Option (List α × α)
  | [] => (entries.get? name).map fun last => ([], last)
  | (passage, next) :: further => do
    let first ← entries.get? name
    let inside ← below? first passage
    let (around, last) ← along? below? inside next further
    return (first :: around, last)

/-- A way of several passages goes through the first and on from there. -/
theorem along?_cons_eq_some {α : Type} {below? : α → Passage → Option (Entries α)}
    {entries : Entries α} {name next : String} {passage : Passage}
    {further : List (Passage × String)} {around : List α} {last : α} :
    along? below? entries name ((passage, next) :: further) = some (around, last) ↔
      ∃ first inside inner, entries.get? name = some first ∧ below? first passage = some inside ∧
        along? below? inside next further = some (inner, last) ∧ around = first :: inner := by
  simp only [along?, Option.bind_eq_bind, Option.bind_eq_some_iff, Option.pure_def,
    Option.some.injEq, Prod.mk.injEq, Prod.exists]
  constructor
  · rintro ⟨first, hfirst, inside, hinside, inner, _, hinner, rfl, rfl⟩
    exact ⟨first, inside, inner, hfirst, hinside, hinner, rfl⟩
  · rintro ⟨first, inside, inner, hfirst, hinside, hinner, rfl⟩
    exact ⟨first, hfirst, inside, hinside, inner, last, hinner, rfl, rfl⟩

/-- There are no fields inside a field of the kind. -/
structure Kind.Leaf (kind : Kind) : Prop where
  holdsObjects : kind.holdsObjects = false
  below : ∀ passage, kind.below? passage = none

/-- The kinds with the names of scalars are leaves. -/
theorem Kind.leaf_of_name {kind : Kind} {k : Scalar} (h : kind.name = .scalar k) : kind.Leaf := by
  cases kind with
  | array element separator => cases h
  | tuple positions => cases h
  | object fields => cases h
  | _ => exact ⟨rfl, fun passage => by cases passage <;> rfl⟩

/-- Vectors are leaves. -/
theorem Kind.leaf_vector (options : VectorOptions) : (Kind.vector options).Leaf :=
  ⟨rfl, fun passage => by cases passage <;> rfl⟩

/-- Arrays of scalars are leaves. -/
theorem Kind.leaf_scalars (kind : Scalar) (separator : Char) :
    (Kind.array (.scalar kind) separator).Leaf :=
  ⟨rfl, fun passage => by cases passage <;> rfl⟩

namespace Resolution

open Outcome

/-! ## One field -/

/-- Each of the fields is resolved from the declaration of its name. -/
def GivenBy (inherited : Bool) (declarations : Declarations) (fields : Entries Field) : Prop :=
  ∀ name f, fields.get? name = some f → ∃ d path ws, declarations.get? name = some d ∧
    resolveField path inherited d = .ok (f, ws)

/-- What resolution hands down to a field, and on to the fields inside it. -/
structure Passes (inherited : Bool) (d : Declaration) (f : Field) : Prop where
  indexed : f.indexed = true ↔
    inherited = true ∧ d.indexed? ≠ some false ∧ f.holdsObjects = false
  below : ∀ passage inside, f.below? passage = some inside →
    ∃ declared, d.below? passage = some declared ∧ GivenBy f.indexed declared inside

variable {inherited : Bool} {declarations : Declarations} {fields : Entries Field}

/-- Fields stay resolved from declarations with one more of each. -/
theorem GivenBy.cons (h : GivenBy inherited declarations fields) {name path : String}
    {d : Declaration} {f : Field} {ws : List Warning}
    (hf : resolveField path inherited d = .ok (f, ws)) :
    GivenBy inherited ((name, d) :: declarations) ((name, f) :: fields) := by
  intro other g hg
  unfold Entries.get? at hg ⊢
  split at hg
  · rename_i hsame
    obtain rfl := Option.some.inj hg
    exact ⟨d, path, ws, if_pos hsame, hf⟩
  · rename_i hdiffers
    rw [if_neg hdiffers]
    exact h other g hg

/-- The fields of a level are given by its declarations. -/
theorem givenBy_of_resolveFields {above : String} {ws : List Warning}
    (h : resolveFields above inherited declarations = .ok (fields, ws)) :
    GivenBy inherited declarations fields := by
  induction declarations generalizing fields ws with
  | nil =>
    obtain ⟨rfl, rfl⟩ := Prod.mk.inj (Except.ok.inj h)
    rintro name f ⟨⟩
  | cons first rest ih =>
    obtain ⟨name, d⟩ := first
    obtain ⟨f, own, others, more, _, hf, hmore, rfl, rfl⟩ := resolveFields_cons_eq_ok h
    exact (ih hmore).cons hf

/-- The fields at a position of a tuple are given by the declarations there. -/
theorem givenBy_of_resolvePositions {path : String} {indexed : Bool} {start : Nat}
    {positions : List Position} {elements : List Element} {ws : List Warning}
    (h : resolvePositions path indexed start positions = .ok (elements, ws)) {index : Nat}
    {inside : Entries Field} (hinside : elements[index]?.bind Element.fields? = some inside) :
    ∃ declared, positions[index]?.bind Position.fields? = some declared ∧
      GivenBy indexed declared inside := by
  induction positions generalizing start elements ws index with
  | nil =>
    obtain ⟨rfl, rfl⟩ := Prod.mk.inj (Except.ok.inj h)
    cases hinside
  | cons position rest ih =>
    obtain ⟨element, own, others, more, hfirst, hmore, rfl, rfl⟩ := resolvePositions_cons_eq_ok h
    cases index with
    | succ index => exact ih hmore hinside
    | zero =>
      cases position with
      | kind name =>
        obtain ⟨kind, _, rfl, rfl⟩ := resolvePosition_kind hfirst
        cases hinside
      | fields declarations =>
        obtain ⟨fields, hfields, rfl⟩ := resolvePosition_fields hfirst
        obtain rfl := Option.some.inj hinside
        exact ⟨declarations, rfl, givenBy_of_resolveFields hfields⟩

variable {path : String} {a : Attributes} {indexed : Bool} {d : Declaration} {kind : Kind}
  {f : Field}

/-- A field whose flag and inside are right passes both on. -/
theorem passes_of_field (h : field path a indexed kind = .ok f)
    (hindexed : indexed = true ↔
      inherited = true ∧ d.indexed? ≠ some false ∧ kind.holdsObjects = false)
    (hbelow : ∀ passage inside, kind.below? passage = some inside →
      ∃ declared, d.below? passage = some declared ∧ GivenBy indexed declared inside) :
    Passes inherited d f := by
  obtain ⟨default, rfl, _⟩ := field_eq_ok h
  exact ⟨hindexed, hbelow⟩

/-- A kind with nothing inside takes the flag as it comes. -/
theorem passes_of_leaf (h : field path a indexed kind = .ok f)
    (hindexed : indexed = true ↔ inherited = true ∧ d.indexed? ≠ some false)
    (hleaf : kind.Leaf) : Passes inherited d f := by
  apply passes_of_field h
  · rw [hindexed, hleaf.holdsObjects]
    simp only [and_true]
  · intro passage inside hinside
    rw [hleaf.below] at hinside
    cases hinside

/-- The bare name of a kind stands for no fields inside. -/
theorem leaf_of_bareKind {name : String} (h : bareKind path name = .ok kind) : kind.Leaf := by
  unfold bareKind at h
  split at h
  · cases h
  · split at h
    · exact Kind.leaf_of_name (scalar_eq_ok h true).1
    · obtain rfl := Except.ok.inj h
      exact Kind.leaf_vector .standard
    · obtain rfl := Except.ok.inj h
      exact Kind.leaf_scalars .string standardSeparator
    · cases h

/-- Options are searched exactly below something searched unless they refuse. -/
theorem searched_iff (inherited : Bool) (a : Attributes) :
    searched inherited a = true ↔ inherited = true ∧ a.indexed ≠ some false := by
  unfold searched
  rcases a.indexed with - | - | - <;> simp

/-- What happens to a field on resolution: whether it is searched, and what is inside. -/
theorem passes_of_resolveField {ws : List Warning}
    (h : resolveField path inherited d = .ok (f, ws)) : Passes inherited d f := by
  cases resolves_of_resolveField h with
  | bare hkind hfield =>
    apply passes_of_leaf hfield _ (leaf_of_bareKind hkind)
    simp [Declaration.indexed?]
  | scalar a _ hkind hfield =>
    exact passes_of_leaf hfield (searched_iff inherited a)
      (Kind.leaf_of_name (scalar_eq_ok hkind true).1)
  | vector a options _ _ hfield =>
    exact passes_of_leaf hfield (searched_iff inherited a) (Kind.leaf_vector options)
  | texts a c _ _ hfield =>
    exact passes_of_leaf hfield (searched_iff inherited a) (Kind.leaf_scalars .string c)
  | scalars a kind c _ _ _ hfield =>
    exact passes_of_leaf hfield (searched_iff inherited a) (Kind.leaf_scalars kind c)
  | objects a declarations hread _ hfields hfield =>
    -- the flag ends here, for the array and for what is inside
    apply passes_of_field hfield
    · simp [Kind.holdsObjects]
    · intro passage inside hinside
      cases passage with
      | elements =>
        obtain rfl := Option.some.inj hinside
        refine ⟨declarations, ?_, givenBy_of_resolveFields hfields⟩
        simp [Declaration.below?, hread, Elements.below?]
      | _ => cases hinside
  | tuple a positions hread _ hpositions hfield =>
    apply passes_of_field hfield
    · rw [searched_iff]
      simp [Kind.holdsObjects, Declaration.indexed?]
    · intro passage inside hinside
      cases passage with
      | position index =>
        have hgiven := givenBy_of_resolvePositions hpositions hinside
        simpa [Declaration.below?, hread, Elements.below?] using hgiven
      | _ => cases hinside
  | object a declarations hread hfields hfield =>
    apply passes_of_field hfield
    · rw [searched_iff]
      simp [Kind.holdsObjects, Declaration.indexed?]
    · intro passage inside hinside
      cases passage with
      | properties =>
        obtain rfl := Option.some.inj hinside
        refine ⟨declarations, ?_, givenBy_of_resolveFields hfields⟩
        simp [Declaration.below?, hread]
      | _ => cases hinside

/-! ## Fields at every depth -/

/-- Along the steps to a field, the declarations of it and of all around it decide together, and no
field inside one that is not searched is searched. -/
theorem GivenBy.indexed_along (h : GivenBy inherited declarations fields) {name : String}
    {further : List (Passage × String)} {around : List Field}
    (hf : along? Field.below? fields name further = some (around, f)) :
    (∃ outer d, along? Declaration.below? declarations name further = some (outer, d) ∧
      (f.indexed = true ↔ inherited = true ∧ (∀ e ∈ d :: outer, e.indexed? ≠ some false) ∧
        ∀ g ∈ f :: around, g.holdsObjects = false)) ∧
    (f.indexed = true → ∀ g ∈ around, g.indexed = true) := by
  induction further generalizing inherited declarations fields name around with
  | nil =>
    obtain ⟨g, hg, hlast⟩ := Option.map_eq_some_iff.1 hf
    obtain ⟨rfl, rfl⟩ := Prod.mk.inj hlast
    obtain ⟨d, path, ws, hd, hresolved⟩ := h name g hg
    have hflag := (passes_of_resolveField hresolved).indexed
    refine ⟨⟨[], d, ?_, ?_⟩, fun _ => List.forall_mem_nil _⟩
    · rw [along?, hd, Option.map_some]
    · rw [hflag, List.forall_mem_singleton, List.forall_mem_singleton]
  | cons step further ih =>
    obtain ⟨passage, next⟩ := step
    obtain ⟨first, inside, inner, hfirst, hinside, hinner, rfl⟩ := along?_cons_eq_some.1 hf
    obtain ⟨d, path, ws, hd, hresolved⟩ := h name first hfirst
    obtain ⟨hflag, hbelow⟩ := passes_of_resolveField hresolved
    obtain ⟨declared, hdeclared, hgiven⟩ := hbelow passage inside hinside
    obtain ⟨⟨outer, last, hlast, hindexed⟩, haround⟩ := ih hgiven hinner
    refine ⟨⟨d :: outer, last, ?_, ?_⟩, ?_⟩
    · exact along?_cons_eq_some.2 ⟨d, declared, outer, hd, hdeclared, hlast, rfl⟩
    · rw [hindexed, hflag]
      simp only [List.forall_mem_cons]
      tauto
    · intro hsearched
      exact List.forall_mem_cons.2 ⟨(hindexed.1 hsearched).1, haround hsearched⟩

/-! ## The top level -/

/-- Fields stay resolved from declarations with one more that none of them has. -/
theorem GivenBy.skip {name : String} (h : GivenBy inherited declarations fields)
    (hordered : Entries.Ordered ((name, d) :: declarations)) :
    GivenBy inherited ((name, d) :: declarations) fields := by
  intro other f hf
  obtain ⟨e, path, ws, he, hresolved⟩ := h other f hf
  refine ⟨e, path, ws, ?_, hresolved⟩
  have hdiffers : name ≠ other := by
    rintro rfl
    rw [hordered.get?_tail] at he
    cases he
  rw [Entries.get?, if_neg hdiffers]
  exact he

/-- The declarations of a schema give its fields; the links among them give none. -/
theorem givenBy_of_ofDeclarations (hordered : Entries.Ordered declarations) {schema : Schema}
    (h : Schema.ofDeclarations declarations = .ok schema) :
    GivenBy true declarations schema.fields := by
  induction declarations generalizing schema with
  | nil =>
    obtain rfl := Except.ok.inj h
    rintro name f ⟨⟩
  | cons first rest ih =>
    obtain ⟨name, d⟩ := first
    obtain ⟨entry, own, later, _, hentry, hlater, rfl⟩ := ofDeclarations_cons_eq_ok h
    have hrest := ih hordered.tail hlater
    cases resolvesEntry_of_resolveEntry hentry with
    | field _ hfield => exact hrest.cons hfield
    | reference => exact hrest.skip hordered
    | relation => exact hrest.skip hordered
    | described => exact hrest.skip hordered

end Resolution

/-- A field of an accepted schema, at any depth, has a declaration reached by the same steps. It is
searched exactly if neither its declaration nor one around it keeps it out of the index, and neither
it nor a field around it is an array of objects. So no field inside one that is not searched is. -/
theorem Schema.indexed_iff {declarations : Declarations}
    (hordered : Entries.Ordered declarations) {schema : Schema}
    (h : Schema.ofDeclarations declarations = .ok schema) {name : String}
    {further : List (Passage × String)} {around : List Field} {f : Field}
    (hf : along? Field.below? schema.fields name further = some (around, f)) :
    (∃ outer d, along? Declaration.below? declarations name further = some (outer, d) ∧
      (f.indexed = true ↔ (∀ e ∈ d :: outer, e.indexed? ≠ some false) ∧
        ∀ g ∈ f :: around, g.holdsObjects = false)) ∧
    ∀ g ∈ around, g.indexed = false → f.indexed = false := by
  have hgiven := Resolution.givenBy_of_ofDeclarations hordered h
  obtain ⟨⟨outer, d, hd, hindexed⟩, haround⟩ := hgiven.indexed_along hf
  constructor
  · refine ⟨outer, d, hd, ?_⟩
    simpa only [true_and] using hindexed
  · intro g hg hnot
    rw [← Bool.not_eq_true] at hnot ⊢
    intro hsearched
    exact hnot (haround hsearched g hg)

/-! ## A house -/

/-- A garden with beds in a row and an array of sheds, and a cellar kept out of the index. -/
def houseDeclarations : Declarations :=
  [("cellar", .full { kind := "object", indexed := some false } none
      (some [("wine", .full { kind := "string", indexed := some true } none none none)]) none),
    ("garden", .full { kind := "object" } none
      (some [("beds", .full { kind := "tuple" }
          (some (.positions [.kind "number", .fields [("herb", .shorthand "string")]])) none none),
        ("sheds", .full { kind := "array" }
          (some (.fields [("tool", .shorthand "string")])) none none)]) none)]

/-- An herb in a garden is indexed, and a tool in a shed or a wine in the cellar is not. -/
theorem Schema.indexed_iff_house :
    Entries.Ordered houseDeclarations ∧
    ∃ schema, Schema.ofDeclarations houseDeclarations = .ok schema ∧
      (∃ around f, along? Field.below? schema.fields "garden"
          [(.properties, "beds"), (.position 1, "herb")] = some (around, f) ∧
        around.length = 2 ∧ f.indexed = true) ∧
      (∃ around f, along? Field.below? schema.fields "garden"
          [(.properties, "sheds"), (.elements, "tool")] = some (around, f) ∧
        around.length = 2 ∧ f.indexed = false) ∧
      (∃ around f, along? Field.below? schema.fields "cellar" [(.properties, "wine")] =
          some (around, f) ∧
        around.length = 1 ∧ f.indexed = false) := by
  have hordered : Entries.Ordered houseDeclarations := by decide
  obtain ⟨schema, hschema⟩ : ∃ schema, Schema.ofDeclarations houseDeclarations = .ok schema :=
    ⟨_, rfl⟩
  have hherb : ∃ around f, along? Field.below? schema.fields "garden"
      [(.properties, "beds"), (.position 1, "herb")] = some (around, f) ∧ around.length = 2 ∧
      ∀ g ∈ f :: around, g.holdsObjects = false := by
    obtain rfl := Except.ok.inj hschema
    refine ⟨_, _, rfl, rfl, ?_⟩
    simp [Field.holdsObjects, Kind.holdsObjects, Field.kind]
  have htool : ∃ around f, along? Field.below? schema.fields "garden"
      [(.properties, "sheds"), (.elements, "tool")] = some (around, f) ∧ around.length = 2 ∧
      ∃ g ∈ around, g.holdsObjects = true := by
    obtain rfl := Except.ok.inj hschema
    refine ⟨_, _, rfl, rfl, ?_⟩
    simp [Field.holdsObjects, Kind.holdsObjects, Field.kind]
  have hwine : ∃ around f, along? Field.below? schema.fields "cellar" [(.properties, "wine")] =
      some (around, f) ∧ around.length = 1 ∧ ∃ g ∈ around, g.indexed = false := by
    obtain rfl := Except.ok.inj hschema
    refine ⟨_, _, rfl, rfl, ?_⟩
    simp [Field.indexed]
  refine ⟨hordered, schema, hschema, ?_, ?_, ?_⟩
  · obtain ⟨around, f, hf, hlength, hplain⟩ := hherb
    obtain ⟨⟨outer, d, hd, hindexed⟩, _⟩ := Schema.indexed_iff hordered hschema hf
    obtain ⟨⟩ := hd
    refine ⟨around, f, hf, hlength, hindexed.2 ⟨?_, hplain⟩⟩
    simp [Declaration.indexed?]
  · obtain ⟨around, f, hf, hlength, g, hg, hobjects⟩ := htool
    obtain ⟨⟨outer, d, hd, hindexed⟩, _⟩ := Schema.indexed_iff hordered hschema hf
    refine ⟨around, f, hf, hlength, ?_⟩
    rw [← Bool.not_eq_true, hindexed]
    intro hall
    have hplain := hall.2 g (List.mem_cons_of_mem _ hg)
    rw [hobjects] at hplain
    cases hplain
  · obtain ⟨around, f, hf, hlength, g, hg, hnot⟩ := hwine
    exact ⟨around, f, hf, hlength, (Schema.indexed_iff hordered hschema hf).2 g hg hnot⟩

end DocumentSchema
