import DocumentSchema.Proofs.Schema.Occurrences

/-!
# Declarations and the fields they give

Resolution gives one field for each declaration that a kind takes up, at every depth and in the same
order: `resolveFields_gives` pairs the declarations of a level and below it with the occurrences of
fields there. The two sides of a pair share path, name and kind, and a separator is the one character
that was declared for it.
-/

set_option autoImplicit false

namespace DocumentSchema

/-- A declaration of a field somewhere among declarations, with its path and its own name. -/
structure Declared where
  path : String
  name : String
  declaration : Declaration

mutual

/-- A declaration and the ones below it; a kind takes up its own elements or properties only. -/
def Declaration.occurrences (path name : String) : Declaration → List Declared
  | .shorthand kind => [⟨path, name, .shorthand kind⟩]
  | .full a elements properties edge =>
    ⟨path, name, .full a elements properties edge⟩ ::
      match KindName.read? a.kind with
      | some .array => elementsDeclared? path elements
      | some .tuple => elementsDeclared? path elements
      | some .object => propertiesDeclared? path properties
      | _ => []
termination_by structural d => d

/-- The same for elements that may be missing. -/
def elementsDeclared? (path : String) : Option Elements → List Declared
  | none => []
  | some elements => elements.occurrences path
termination_by structural e => e

/-- What is declared in the elements of an array or at the positions of a tuple. -/
def Elements.occurrences (path : String) : Elements → List Declared
  | .kind _ => []
  | .fields declarations => declarationsDeclared path declarations
  | .positions positions => positionsDeclared path 0 positions
termination_by structural e => e

/-- The same for properties that may be missing. -/
def propertiesDeclared? (path : String) : Option (List (String × Declaration)) → List Declared
  | none => []
  | some declarations => declarationsDeclared path declarations
termination_by structural ds => ds

/-- The declarations at the positions of a tuple from an index on. -/
def positionsDeclared (path : String) (index : Nat) : List Position → List Declared
  | [] => []
  | position :: rest =>
    position.occurrences (path ++ "." ++ Decimal.natText index) ++
      positionsDeclared path (index + 1) rest
termination_by structural ps => ps

/-- What is declared inside one position of a tuple. -/
def Position.occurrences (path : String) : Position → List Declared
  | .kind _ => []
  | .fields declarations => declarationsDeclared path declarations
termination_by structural position => position

/-- The declarations of one level, each before those below it. -/
def declarationsDeclared (above : String) : List (String × Declaration) → List Declared
  | [] => []
  | (name, declaration) :: rest =>
    declaration.occurrences (above ++ "." ++ name) name ++ declarationsDeclared above rest
termination_by structural ds => ds

end

/-- The kind that is written in a declaration. -/
def Declaration.kindName : Declaration → String
  | .shorthand kind => kind
  | .full a _ _ _ => a.kind

/-- The separator that a declaration asks for. -/
def Declaration.separator : Declaration → String
  | .shorthand _ => standardSeparator.toString
  | .full a _ _ _ => a.separator.getD standardSeparator.toString

/-- The separator of a kind, if it has one. -/
def Kind.separator? : Kind → Option Char
  | .string separator _ => some separator
  | .array _ separator => some separator
  | _ => none

/-- A field that a declaration gives: its place and kind, and for a separator the one character that
was asked for. -/
structure Declared.Gives (d : Declared) (o : Occurrence) : Prop where
  path : o.path = d.path
  name : o.name = d.name
  kind : o.field.kind.name.label = d.declaration.kindName
  separator : ∀ c, o.field.kind.separator? = some c → d.declaration.separator = c.toString

namespace Resolution

open Outcome

variable {path : String} {a : Attributes}

/-! ## Kinds -/

/-- A kind has the name that it was read from. -/
theorem label_of_read? {name : String} {kind : KindName} (h : KindName.read? name = some kind) :
    kind.label = name := by
  have hfound := List.find?_some h
  exact of_decide_eq_true hfound

/-- Only the text of one character is accepted for a separator. -/
theorem separator_eq_ok {c : Char} (h : separator path a = .ok c) :
    a.separator.getD standardSeparator.toString = c.toString := by
  unfold separator at h
  split at h
  · rename_i hnone
    rw [hnone, Except.ok.inj h]
    rfl
  · rename_i text htext
    split at h
    · rename_i d hsingle
      obtain rfl := Except.ok.inj h
      have hlist : d.toString.toList = [d] := by simp
      rw [htext, Option.getD_some]
      exact String.toList_inj.1 (hsingle.trans hlist.symm)
    · cases h

/-- A scalar kind has the separator that was asked for, and no fields below it. -/
theorem scalar_gives {k : Scalar} {kind : Kind} (h : scalar path a k = .ok kind) :
    kind.name = .scalar k ∧
      (∀ c, kind.separator? = some c → a.separator.getD standardSeparator.toString = c.toString) ∧
      kind.occurrences path = [] := by
  obtain ⟨hname, _, _⟩ := scalar_eq_ok h true
  cases k with
  | string =>
    obtain ⟨d, hd, h⟩ := bind_eq_ok.1 h
    obtain rfl := pure_eq_ok.1 h
    refine ⟨rfl, ?_, rfl⟩
    rintro _ ⟨⟩
    exact separator_eq_ok hd
  | _ =>
    cases kind with
    | string separator caseSensitive => cases hname
    | array element separator => cases hname
    | tuple positions => cases hname
    | object fields => cases hname
    | _ => exact ⟨hname, by rintro _ ⟨⟩, rfl⟩

/-- The bare name of a kind stands for the standard separator, and for no fields below. -/
theorem bareKind_gives {name : String} {kind : Kind} (h : bareKind path name = .ok kind) :
    kind.name.label = name ∧
      (∀ c, kind.separator? = some c → standardSeparator.toString = c.toString) ∧
      kind.occurrences path = [] := by
  unfold bareKind at h
  split at h
  · cases h
  · split at h
    · rename_i k hread
      obtain ⟨hname, hseparator, hbelow⟩ := scalar_gives h
      exact ⟨hname ▸ label_of_read? hread, hseparator, hbelow⟩
    · rename_i hread
      obtain rfl := Except.ok.inj h
      exact ⟨label_of_read? hread, by rintro _ ⟨⟩, rfl⟩
    · rename_i hread
      obtain rfl := Except.ok.inj h
      refine ⟨label_of_read? hread, ?_, rfl⟩
      rintro _ ⟨⟩
      rfl
    · cases h

/-! ## Fields at every depth -/

/-- The separator of an array is the one character that was declared for it. -/
theorem array_separator {c : Char} (h : separator path a = .ok c) :
    ∀ d, some c = some d → a.separator.getD standardSeparator.toString = d.toString := by
  rintro _ ⟨⟩
  exact separator_eq_ok h

/-- The field of a kind is given by a declaration with that kind, if what is below it is given by
what is declared below. -/
theorem field_gives (d : Declaration) {indexed : Bool} {kind : Kind} {f : Field}
    (h : field path a indexed kind = .ok f) (hname : kind.name.label = d.kindName)
    (hseparator : ∀ c, kind.separator? = some c → d.separator = c.toString)
    {below : List Declared} (hbelow : List.Forall₂ Declared.Gives below (kind.occurrences path))
    (name : String) :
    List.Forall₂ Declared.Gives (⟨path, name, d⟩ :: below) (f.occurrences path name) := by
  obtain ⟨default, rfl, _⟩ := field_eq_ok h
  exact List.Forall₂.cons ⟨rfl, rfl, hname, hseparator⟩ hbelow

mutual

/-- A declaration gives its field and the fields below it, one for one and in order. -/
theorem resolveField_gives (d : Declaration) {path : String} {inherited : Bool} {f : Field}
    {ws : List Warning} (h : resolveField path inherited d = .ok (f, ws)) (name : String) :
    List.Forall₂ Declared.Gives (d.occurrences path name) (f.occurrences path name) := by
  cases resolves_of_resolveField h with
  | bare hkind hfield =>
    obtain ⟨hname, hseparator, hbelow⟩ := bareKind_gives hkind
    exact field_gives (.shorthand _) hfield hname hseparator (hbelow ▸ List.Forall₂.nil) name
  | scalar a hread hkind hfield =>
    obtain ⟨hname, hseparator, hbelow⟩ := scalar_gives hkind
    rw [Declaration.occurrences, hread]
    exact field_gives (.full a _ _ _) hfield (hname ▸ label_of_read? hread) hseparator
      (hbelow ▸ List.Forall₂.nil) name
  | vector a options hread _ hfield =>
    rw [Declaration.occurrences, hread]
    exact field_gives (.full a _ _ _) hfield (label_of_read? hread) (by rintro _ ⟨⟩)
      List.Forall₂.nil name
  | texts a c hread hseparator hfield =>
    rw [Declaration.occurrences, hread]
    exact field_gives (.full a _ _ _) hfield (label_of_read? hread) (array_separator hseparator)
      List.Forall₂.nil name
  | scalars a kind c hread hseparator _ hfield =>
    rw [Declaration.occurrences, hread]
    exact field_gives (.full a _ _ _) hfield (label_of_read? hread) (array_separator hseparator)
      List.Forall₂.nil name
  | objects a declarations hread hseparator hfields hfield =>
    rw [Declaration.occurrences, hread]
    exact field_gives (.full a _ _ _) hfield (label_of_read? hread) (array_separator hseparator)
      (resolveFields_gives declarations hfields) name
  | tuple a positions hread _ hpositions hfield =>
    rw [Declaration.occurrences, hread]
    exact field_gives (.full a _ _ _) hfield (label_of_read? hread) (by rintro _ ⟨⟩)
      (resolvePositions_gives positions hpositions) name
  | object a declarations hread hfields hfield =>
    rw [Declaration.occurrences, hread]
    exact field_gives (.full a _ _ _) hfield (label_of_read? hread) (by rintro _ ⟨⟩)
      (resolveFields_gives declarations hfields) name
termination_by structural d

/-- The positions of a tuple give their fields in order. -/
theorem resolvePositions_gives (positions : List Position) {path : String} {indexed : Bool}
    {index : Nat} {elements : List Element} {ws : List Warning}
    (h : resolvePositions path indexed index positions = .ok (elements, ws)) :
    List.Forall₂ Declared.Gives (positionsDeclared path index positions)
      (positionsOccurrences path index elements) := by
  cases positions with
  | nil =>
    obtain ⟨rfl, rfl⟩ := Prod.mk.inj (Except.ok.inj h)
    exact List.Forall₂.nil
  | cons position positions =>
    obtain ⟨element, own, others, more, hfirst, hmore, rfl, rfl⟩ := resolvePositions_cons_eq_ok h
    exact List.rel_append (resolvePosition_gives position hfirst)
      (resolvePositions_gives positions hmore)
termination_by structural positions

/-- A position gives the fields of the object at it. -/
theorem resolvePosition_gives (position : Position) {path : String} {indexed : Bool}
    {element : Element} {ws : List Warning}
    (h : resolvePosition path indexed position = .ok (element, ws)) :
    List.Forall₂ Declared.Gives (position.occurrences path) (element.occurrences path) := by
  cases position with
  | kind name =>
    obtain ⟨kind, _, rfl, rfl⟩ := resolvePosition_kind h
    exact List.Forall₂.nil
  | fields declarations =>
    obtain ⟨fields, hfields, rfl⟩ := resolvePosition_fields h
    exact resolveFields_gives declarations hfields
termination_by structural position

/-- The declarations of a level give the fields of the level and of all levels below it, one for one
and in order. -/
theorem resolveFields_gives (declarations : List (String × Declaration)) {above : String}
    {inherited : Bool} {fields : Entries Field} {ws : List Warning}
    (h : resolveFields above inherited declarations = .ok (fields, ws)) :
    List.Forall₂ Declared.Gives (declarationsDeclared above declarations)
      (fieldsOccurrences above fields) := by
  cases declarations with
  | nil =>
    obtain ⟨rfl, rfl⟩ := Prod.mk.inj (Except.ok.inj h)
    exact List.Forall₂.nil
  | cons first rest =>
    obtain ⟨name, declaration⟩ := first
    obtain ⟨f, own, others, more, _, hf, hmore, rfl, rfl⟩ := resolveFields_cons_eq_ok h
    exact List.rel_append (resolveField_gives declaration hf name) (resolveFields_gives rest hmore)
termination_by structural declarations

end

end Resolution

end DocumentSchema
