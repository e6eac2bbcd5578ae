import DocumentSchema.Proofs.Outcome
import DocumentSchema.Schema.Resolution

/-!
# Accepted declarations

Resolution accepts a declaration in one of few forms, by its kind and by what is declared inside.
`Resolves` lists the forms of a field with what each of them comes to, `ResolvesEntry` those of the
top level. Whatever is accepted has one of these forms (`resolves_of_resolveField`,
`resolvesEntry_of_resolveEntry`), so what holds of every form holds of resolution, and nothing else
needs to look into the resolver.
-/

set_option autoImplicit false

namespace DocumentSchema.Resolution

open Outcome (bind_eq_ok pure_eq_ok)

/-- Whether the index has a field with these options, given that it has the fields around it. -/
def searched (inherited : Bool) (a : Attributes) : Bool := inherited && a.indexed.getD true

/-- What is searched stands in something that is. -/
theorem inherited_of_searched {inherited : Bool} {a : Attributes}
    (h : searched inherited a = true) : inherited = true :=
  (Bool.and_eq_true_iff.1 h).1

/-- What an accepted declaration of a field comes to, one case for each of its forms. -/
inductive Resolves (path : String) (inherited : Bool) :
    Declaration → Field → List Warning → Prop
  | bare {name : String} {kind : Kind} {f : Field} (hkind : bareKind path name = .ok kind)
      (hfield : field path { kind := name } inherited kind = .ok f) :
      Resolves path inherited (.shorthand name) f []
  | scalar (a : Attributes) {elements : Option Elements} {properties edge : Option Declarations}
      {name : Scalar} {kind : Kind} {f : Field}
      (hread : KindName.read? a.kind = some (.scalar name)) (hkind : scalar path a name = .ok kind)
      (hfield : field path a (searched inherited a) kind = .ok f) :
      Resolves path inherited (.full a elements properties edge) f []
  | vector (a : Attributes) {elements : Option Elements} {properties edge : Option Declarations}
      (options : VectorOptions) {f : Field} (hread : KindName.read? a.kind = some .vector)
      (hoptions : vector path a = .ok options)
      (hfield : field path a (searched inherited a) (.vector options) = .ok f) :
      Resolves path inherited (.full a elements properties edge) f []
  | texts (a : Attributes) {properties edge : Option Declarations} (c : Char) {f : Field}
      (hread : KindName.read? a.kind = some .array) (hseparator : separator path a = .ok c)
      (hfield : field path a (searched inherited a) (.array (.scalar .string) c) = .ok f) :
      Resolves path inherited (.full a none properties edge) f []
  | scalars (a : Attributes) {properties edge : Option Declarations} {name : String} (kind : Scalar)
      (c : Char) {f : Field} (hread : KindName.read? a.kind = some .array)
      (hseparator : separator path a = .ok c) (hkind : elementKind path name = .ok kind)
      (hfield : field path a (searched inherited a) (.array (.scalar kind) c) = .ok f) :
      Resolves path inherited (.full a (some (.kind name)) properties edge) f []
  | objects (a : Attributes) {properties edge : Option Declarations} (declarations : Declarations)
      {c : Char} {fields : Entries Field} {warnings : List Warning} {f : Field}
      (hread : KindName.read? a.kind = some .array) (hseparator : separator path a = .ok c)
      (hfields : resolveFields path false declarations = .ok (fields, warnings))
      (hfield : field path a false (.array (.object fields) c) = .ok f) :
      Resolves path inherited (.full a (some (.fields declarations)) properties edge) f
        (.unsearchableArray path :: warnings)
  | tuple (a : Attributes) {properties edge : Option Declarations} (positions : List Position)
      {elements : List Element} {warnings : List Warning} {f : Field}
      (hread : KindName.read? a.kind = some .tuple) (hnonempty : positions ≠ [])
      (hpositions : resolvePositions path (searched inherited a) 0 positions =
        .ok (elements, warnings))
      (hfield : field path a (searched inherited a) (.tuple elements) = .ok f) :
      Resolves path inherited (.full a (some (.positions positions)) properties edge) f warnings
  | object (a : Attributes) {elements : Option Elements} {edge : Option Declarations}
      (declarations : Declarations) {fields : Entries Field} {warnings : List Warning} {f : Field}
      (hread : KindName.read? a.kind = some .object)
      (hfields : resolveFields path (searched inherited a) declarations = .ok (fields, warnings))
      (hfield : field path a (searched inherited a) (.object fields) = .ok f) :
      Resolves path inherited (.full a elements (some declarations) edge) f warnings

/-- A field comes last and brings no warnings of its own. -/
theorem field_of_pair {resolved : Except SchemaError Field} {own ws : List Warning} {f : Field}
    (h : (resolved >>= fun g => pure (g, own)) = .ok (f, ws)) : resolved = .ok f ∧ own = ws := by
  obtain ⟨g, hg, h⟩ := bind_eq_ok.1 h
  obtain ⟨rfl, rfl⟩ := Prod.mk.inj (pure_eq_ok.1 h)
  exact ⟨hg, rfl⟩

variable {path above name : String} {inherited indexed : Bool} {d : Declaration} {f : Field}
  {index : Nat} {ws : List Warning}

/-- Every accepted declaration of a field has one of the forms. -/
theorem resolves_of_resolveField (h : resolveField path inherited d = .ok (f, ws)) :
    Resolves path inherited d f ws := by
  cases d with
  | shorthand name =>
    obtain ⟨kind, hkind, h⟩ := bind_eq_ok.1 h
    obtain ⟨hfield, rfl⟩ := field_of_pair h
    exact .bare hkind hfield
  | full a elements properties edge =>
    unfold resolveField at h
    dsimp only at h
    split at h
    · cases h
    · rename_i hread
      obtain ⟨kind, hkind, h⟩ := bind_eq_ok.1 h
      obtain ⟨hfield, rfl⟩ := field_of_pair h
      exact .scalar a hread hkind hfield
    · rename_i hread
      obtain ⟨options, hoptions, h⟩ := bind_eq_ok.1 h
      obtain ⟨hfield, rfl⟩ := field_of_pair h
      exact .vector a options hread hoptions hfield
    · rename_i hread
      obtain ⟨c, hseparator, h⟩ := bind_eq_ok.1 h
      cases elements with
      | none =>
        obtain ⟨hfield, rfl⟩ := field_of_pair h
        exact .texts a c hread hseparator hfield
      | some elements =>
        cases elements with
        | kind name =>
          obtain ⟨kind, hkind, h⟩ := bind_eq_ok.1 h
          obtain ⟨hfield, rfl⟩ := field_of_pair h
          exact .scalars a kind c hread hseparator hkind hfield
        | fields declarations =>
          obtain ⟨⟨fields, warnings⟩, hfields, h⟩ := bind_eq_ok.1 h
          obtain ⟨hfield, rfl⟩ := field_of_pair h
          exact .objects a declarations hread hseparator hfields hfield
        | positions positions => cases h
    · rename_i hread
      cases elements with
      | none => cases h
      | some elements =>
        cases elements with
        | kind name => cases h
        | fields declarations => cases h
        | positions positions =>
          cases positions with
          | nil => cases h
          | cons position positions =>
            obtain ⟨⟨elements, warnings⟩, hpositions, h⟩ := bind_eq_ok.1 h
            obtain ⟨hfield, rfl⟩ := field_of_pair h
            exact .tuple a (position :: positions) hread (List.cons_ne_nil position positions)
              hpositions hfield
    · rename_i hread
      cases properties with
      | none => cases h
      | some declarations =>
        obtain ⟨⟨fields, warnings⟩, hfields, h⟩ := bind_eq_ok.1 h
        obtain ⟨hfield, rfl⟩ := field_of_pair h
        exact .object a declarations hread hfields hfield

/-- The positions of an accepted tuple are accepted one after the other. -/
theorem resolvePositions_cons_eq_ok {position : Position} {rest : List Position}
    {elements : List Element}
    (h : resolvePositions path indexed index (position :: rest) = .ok (elements, ws)) :
    ∃ element own others more,
      resolvePosition (path ++ "." ++ Decimal.natText index) indexed position = .ok (element, own) ∧
        resolvePositions path indexed (index + 1) rest = .ok (others, more) ∧
        elements = element :: others ∧ ws = own ++ more := by
  obtain ⟨⟨element, own⟩, hfirst, h⟩ := bind_eq_ok.1 h
  obtain ⟨⟨others, more⟩, hmore, h⟩ := bind_eq_ok.1 h
  obtain ⟨rfl, rfl⟩ := Prod.mk.inj (pure_eq_ok.1 h)
  exact ⟨element, own, others, more, hfirst, hmore, rfl, rfl⟩

/-- A position that is named holds a scalar. -/
theorem resolvePosition_kind {element : Element}
    (h : resolvePosition path indexed (.kind name) = .ok (element, ws)) :
    ∃ kind, elementKind path name = .ok kind ∧ element = .scalar kind ∧ ws = [] := by
  obtain ⟨kind, hkind, h⟩ := bind_eq_ok.1 h
  obtain ⟨rfl, rfl⟩ := Prod.mk.inj (pure_eq_ok.1 h)
  exact ⟨kind, hkind, rfl, rfl⟩

/-- A position with fields holds an object of them. -/
theorem resolvePosition_fields {declarations : Declarations} {element : Element}
    (h : resolvePosition path indexed (.fields declarations) = .ok (element, ws)) :
    ∃ fields, resolveFields path indexed declarations = .ok (fields, ws) ∧
      element = .object fields := by
  obtain ⟨⟨fields, own⟩, hfields, h⟩ := bind_eq_ok.1 h
  obtain ⟨rfl, rfl⟩ := Prod.mk.inj (pure_eq_ok.1 h)
  exact ⟨fields, hfields, rfl⟩

/-- The fields of an accepted level are accepted one after the other. -/
theorem resolveFields_cons_eq_ok {rest : Declarations} {fields : Entries Field}
    (h : resolveFields above inherited ((name, d) :: rest) = .ok (fields, ws)) :
    ∃ f own others more, checkName name (above ++ "." ++ name) = .ok () ∧
      resolveField (above ++ "." ++ name) inherited d = .ok (f, own) ∧
        resolveFields above inherited rest = .ok (others, more) ∧
        fields = (name, f) :: others ∧ ws = own ++ more := by
  obtain ⟨_, hname, h⟩ := bind_eq_ok.1 h
  obtain ⟨_, _, h⟩ := bind_eq_ok.1 h
  obtain ⟨⟨f, own⟩, hf, h⟩ := bind_eq_ok.1 h
  obtain ⟨⟨others, more⟩, hmore, h⟩ := bind_eq_ok.1 h
  obtain ⟨rfl, rfl⟩ := Prod.mk.inj (pure_eq_ok.1 h)
  exact ⟨f, own, others, more, hname, hf, hmore, rfl, rfl⟩

/-! ## The top level -/

/-- A declaration that is none of a link. -/
def OfField : Declaration → Prop
  | .shorthand _ => True
  | .full a _ _ _ => a.kind ≠ "reference" ∧ a.kind ≠ "relation"

/-- What an accepted declaration at the top level comes to, one case for each of its forms. -/
inductive ResolvesEntry (name : String) : Declaration → Entry → List Warning → Prop
  | field {d : Declaration} {f : Field} {warnings : List Warning} (hfree : OfField d)
      (hfield : resolveField name true d = .ok (f, warnings)) :
      ResolvesEntry name d (.field f) warnings
  | reference (a : Attributes) {elements : Option Elements}
      {properties edge : Option Declarations} (target : String) (hkind : a.kind = "reference") :
      ResolvesEntry name (.full a elements properties edge)
        (.reference ⟨.read target, a.optional.getD false⟩) []
  | relation (a : Attributes) {elements : Option Elements} {properties : Option Declarations}
      (target : String) (hkind : a.kind = "relation") :
      ResolvesEntry name (.full a elements properties none)
        (.relation ⟨.read target, a.optional.getD false, a.indexed.getD true, none⟩) []
  | described (a : Attributes) {elements : Option Elements} {properties : Option Declarations}
      (target : String) (declarations : Declarations) {fields : Entries Field}
      {warnings : List Warning} (hkind : a.kind = "relation")
      (hfields : resolveFields (name ++ ".meta") true declarations = .ok (fields, warnings)) :
      ResolvesEntry name (.full a elements properties (some declarations))
        (.relation ⟨.read target, a.optional.getD false, a.indexed.getD true, some fields⟩) warnings

/-- Every accepted declaration at the top level has one of the forms. -/
theorem resolvesEntry_of_resolveEntry {entry : Entry}
    (h : resolveEntry name d = .ok (entry, ws)) : ResolvesEntry name d entry ws := by
  cases d with
  | shorthand kind =>
    obtain ⟨⟨f, own⟩, hf, h⟩ := bind_eq_ok.1 h
    obtain ⟨rfl, rfl⟩ := Prod.mk.inj (pure_eq_ok.1 h)
    exact .field trivial hf
  | full a elements properties edge =>
    rw [resolveEntry] at h
    split at h
    · rename_i hreference
      obtain ⟨target, _, h⟩ := bind_eq_ok.1 h
      obtain ⟨rfl, rfl⟩ := Prod.mk.inj (pure_eq_ok.1 h)
      exact .reference a target hreference
    · rename_i hreference
      split at h
      · rename_i hrelation
        obtain ⟨target, _, h⟩ := bind_eq_ok.1 h
        cases edge with
        | none =>
          obtain ⟨rfl, rfl⟩ := Prod.mk.inj (pure_eq_ok.1 h)
          exact .relation a target hrelation
        | some declarations =>
          obtain ⟨⟨fields, own⟩, hfields, h⟩ := bind_eq_ok.1 h
          obtain ⟨rfl, rfl⟩ := Prod.mk.inj (pure_eq_ok.1 h)
          exact .described a target declarations hrelation hfields
      · rename_i hrelation
        obtain ⟨⟨f, own⟩, hf, h⟩ := bind_eq_ok.1 h
        obtain ⟨rfl, rfl⟩ := Prod.mk.inj (pure_eq_ok.1 h)
        exact .field ⟨hreference, hrelation⟩ hf

/-- Accepted declarations at the top level are accepted one after the other. -/
theorem ofDeclarations_cons_eq_ok {rest : Declarations} {schema : Schema}
    (h : Schema.ofDeclarations ((name, d) :: rest) = .ok schema) :
    ∃ entry own later, checkName name name = .ok () ∧ resolveEntry name d = .ok (entry, own) ∧
      Schema.ofDeclarations rest = .ok later ∧ schema = addEntry name entry own later := by
  obtain ⟨_, hname, h⟩ := bind_eq_ok.1 h
  obtain ⟨⟨entry, own⟩, hentry, h⟩ := bind_eq_ok.1 h
  obtain ⟨later, hlater, h⟩ := bind_eq_ok.1 h
  exact ⟨entry, own, later, hname, hentry, hlater, (pure_eq_ok.1 h).symm⟩

end DocumentSchema.Resolution
