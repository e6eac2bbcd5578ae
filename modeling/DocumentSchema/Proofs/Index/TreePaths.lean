import DocumentSchema.Proofs.Codec.Admission
import DocumentSchema.Proofs.Codec.Keys
import DocumentSchema.Proofs.Index.Selectors

/-!
# An index finds what a tree holds

The paths of an index are put together from texts, and the trees that it is used on by a recursion on
kinds. They agree on the layout: in the tree of a document, the path of an index field finds exactly
the tree of the value that the location of the field leads to in the document
(`Schema.encodeTree_finds`). One step keeps the tree that was found so far the tree of the value that
was reached (`Place.Writes.next`), and so does a whole location.
-/

set_option autoImplicit false

namespace DocumentSchema

open Outcome

namespace Query.Place

/-! ## Values at locations -/

/-- The value of a member; one that is missing has its default. -/
def memberValue? (fields : Entries Field) (name : String) (doc : Document) : Option Value :=
  (fields.get? name).bind fun field => effective doc name field.default

/-- The value one step further from a value at a place. -/
def child? : Place → Step → Value → Option Value
  | .level fields, .member name, .object doc => memberValue? fields name doc
  | .field (.object fields), .member name, .object doc => memberValue? fields name doc
  | .field (.tuple _), .position index, .array vs => vs[index]?
  | _, _, _ => none

/-- The value at the end of a location, if there is one. -/
def value? (place : Place) (v : Value) : List Step → Option Value
  | [] => some v
  | step :: rest =>
    (place.next? step).bind fun next => (place.child? step v).bind fun w => next.value? w rest

/-- What an index has of a value at a place: its tree, or the trees of the items of an array. -/
def trees (path : String) : Place → Value → Except EncodeError (List Json)
  | .level _, _ => .ok []
  | .position kind, v => (Tree.encodeScalar path kind v).map fun json => [json]
  | .field (.array (.scalar kind) _), v =>
    if v.isNull then .ok []
    else do
      let vs ← Admission.items path .array v
      Tree.encodeItems path (fun path v => Tree.encodeScalar path kind v) 0 vs
  | .field kind, v => (Tree.encodeKind path kind v).map fun json => [json]

/-- The tree that a value at a place is written as. -/
def Writes (path : String) : Place → Value → Json → Prop
  | .level fields, v, json =>
    (v = .null ∧ json = .null) ∨
      ∃ doc skip members, v = .object doc ∧ json = .object members ∧
        Tree.encodeMembers fields skip (fun doc => Tree.encodeFields path fields doc) doc =
          .ok members
  | .field kind, v, json => Tree.encodeKind path kind v = .ok json
  | .position kind, v, json => Tree.encodeScalar path kind v = .ok json

end Query.Place

open Index Query

namespace Query.Place

/-! ## One step -/

/-- What is written for an object is written for its level. -/
theorem writes_object {path : String} {fields : Entries Field} {v : Value} {json : Json}
    (h : Tree.encodeKind path (.object fields) v = .ok json) :
    (level fields).Writes path v json := by
  rcases Tree.encodeKind_object h with ⟨rfl, rfl⟩ | ⟨doc, members, rfl, rfl, hmembers⟩
  · exact Or.inl ⟨rfl, rfl⟩
  · exact Or.inr ⟨doc, Tree.skipNone, members, rfl, rfl, hmembers⟩

/-- What is written for an element is written for the place that it is. -/
theorem writes_ofElement {path : String} {element : Element} {v : Value} {json : Json}
    (h : Tree.encodeElement path element v = .ok json) :
    (ofElement element).Writes path v json := by
  cases element with
  | scalar kind => exact h
  | object fields => exact writes_object h

/-- What a step comes to in a document and in its tree: nothing in either, or a value and its tree. -/
def Steps (path : String) (place next : Place) (step : Step) (v : Value) (json : Json) : Prop :=
  (place.child? step v = none ∧ (selectorOf step).find json = []) ∨
    ∃ w inner, place.child? step v = some w ∧ (selectorOf step).find json = [inner] ∧
      next.Writes (Tree.below path step.text) w inner

/-- A member is at its name in a document and in its tree, or in neither. -/
theorem Writes.member {path name : String} {fields : Entries Field} (hfields : fields.Ordered)
    {v : Value} {json : Json} (h : (level fields).Writes path v json) {next : Place}
    (hnext : member? fields name = some next) :
    Steps path (level fields) next (.member name) v json := by
  obtain ⟨field, hget, _, rfl⟩ := member?_eq_some_iff.1 hnext
  rcases h with ⟨rfl, rfl⟩ | ⟨doc, skip, members, rfl, rfl, hmembers⟩
  · exact Or.inl ⟨rfl, rfl⟩
  · have hvalue : (level fields).child? (.member name) (.object doc) =
        effective doc name field.default := by
      rw [child?, memberValue?, hget, Option.bind_some]
    have hfind : (selectorOf (.member name)).find (.object members) =
        (Entries.get? members name).toList := rfl
    rw [Steps, hvalue, hfind]
    rcases Tree.get?_encodeLevel hfields hmembers hget with
      ⟨hnone, hmissing⟩ | ⟨w, inner, hsome, hinner, hwrites⟩
    · rw [hnone, hmissing]
      exact Or.inl ⟨rfl, rfl⟩
    · rw [hsome, hinner]
      exact Or.inr ⟨w, inner, rfl, rfl, hwrites⟩

/-- A position is at its number in a document and in its tree, or in neither. -/
theorem Writes.position {path : String} {index : Nat} {positions : List Element} {v : Value}
    {json : Json} (h : (field (.tuple positions)).Writes path v json) {next : Place}
    (hnext : (field (.tuple positions)).next? (.position index) = some next) :
    Steps path (field (.tuple positions)) next (.position index) v json := by
  obtain ⟨element, hget, rfl⟩ := Option.map_eq_some_iff.1 hnext
  rcases Tree.encodeKind_tuple h hget with
    ⟨rfl, rfl⟩ | ⟨vs, jsons, w, inner, rfl, rfl, hw, hinner, hwrites⟩
  · exact Or.inl ⟨rfl, rfl⟩
  · refine Or.inr ⟨w, inner, hw, ?_, writes_ofElement hwrites⟩
    rw [selectorOf, Selector.find, hinner]
    rfl

/-- A step from a value and its tree leads to a value and its tree, or to nothing on both sides. -/
theorem Writes.next {path : String} {place next : Place} (hplace : place.Resolved) {v : Value}
    {json : Json} (h : place.Writes path v json) {step : Step}
    (hnext : place.next? step = some next) : Steps path place next step v json := by
  cases place with
  | level fields =>
    cases step with
    | member name => exact h.member hplace.1 hnext
    | position index => cases hnext
  | position kind => cases step <;> cases hnext
  | field kind =>
    cases kind with
    | object fields =>
      cases step with
      | position index => cases hnext
      | member name =>
        obtain ⟨_, hfields, _⟩ := hplace
        have hsteps := (writes_object h).member hfields hnext
        have hchild : (field (.object fields)).child? (.member name) v =
            (level fields).child? (.member name) v := by cases v <;> rfl
        rw [Steps, hchild]
        exact hsteps
    | tuple positions =>
      cases step with
      | member name => cases hnext
      | position index => exact h.position hnext
    | _ => cases step <;> cases hnext

/-! ## A whole location -/

/-- The path of messages at the end of a location. -/
def documentPath (path : String) (location : List Step) : String :=
  location.foldl (fun path step => Tree.below path step.text) path

/-- Along a location, what is found in a tree is the tree of what is reached in the document. -/
theorem Writes.at {path : String} {place target : Place} (hplace : place.Resolved) {v : Value}
    {json : Json} (h : place.Writes path v json) {location : List Step}
    (hat : place.at? location = some target) :
    (place.value? v location = none ∧ findAll (location.map selectorOf) [json] = []) ∨
      ∃ w inner, place.value? v location = some w ∧
        findAll (location.map selectorOf) [json] = [inner] ∧
          target.Writes (documentPath path location) w inner := by
  induction location generalizing path place v json with
  | nil =>
    obtain rfl := Option.some.inj hat
    exact Or.inr ⟨v, json, rfl, rfl, h⟩
  | cons step rest ih =>
    rw [at?_cons] at hat
    obtain ⟨next, hnext, hat⟩ := Option.bind_eq_some_iff.1 hat
    rw [value?, hnext, Option.bind_some, List.map_cons, findAll_cons]
    rcases h.next hplace hnext with ⟨hnone, hmissing⟩ | ⟨w, inner, hsome, hfound, hwrites⟩
    · rw [hnone, hmissing, findAll_nil]
      exact Or.inl ⟨rfl, rfl⟩
    · rw [hsome, hfound, Option.bind_some]
      exact ih (hplace.next hnext) hwrites hat

/-- At a leaf, an index finds the tree of the value there, or the trees of its items. -/
theorem Writes.trees {path : String} {leaf : Leaf}
    (hleaf : (leaf.place.family? .json).isSome = true) {v : Value} {json : Json}
    (h : leaf.place.Writes path v json) :
    leaf.place.trees path v = .ok (findAll (if leaf.byItems then [.items] else []) [json]) := by
  obtain ⟨location, place⟩ := leaf
  cases place with
  | level fields => cases hleaf
  | position kind =>
    show (Tree.encodeScalar path kind v).map _ = _
    rw [h]
    rfl
  | field kind =>
    cases kind with
    | object fields => cases hleaf
    | tuple positions => cases hleaf
    | array element separator =>
      cases element with
      | object fields => cases hleaf
      | scalar kind =>
        cases v with
        | null =>
          obtain rfl := Except.ok.inj h
          rfl
        | array vs =>
          obtain ⟨ws, hws, h⟩ := bind_eq_ok.1 h
          obtain rfl := Admission.items_eq_ok hws
          obtain ⟨jsons, hjsons, h⟩ := bind_eq_ok.1 h
          obtain rfl := pure_eq_ok.1 h
          have hfound : findAll [.items] [.array jsons] = jsons := by
            rw [findAll_cons]
            rfl
          exact hjsons.trans (congrArg Except.ok hfound.symm)
        | _ => cases h
    | _ =>
      show (Tree.encodeKind path _ v).map _ = _
      rw [h]
      rfl

end Query.Place

/-- What an index field finds in the tree of a document: the trees of the value that the location of
a leaf leads to in the document, and nothing where the location leads nowhere. -/
structure Leaf.FoundBy (schema : Schema) (doc : Document) (json : Json) (leaf : Leaf)
    (f : IndexField) : Prop where
  at_location : (Place.level schema.fields).at? leaf.location = some leaf.place
  path : f.path = leaf.treePath "$"
  searchName : f.searchName = leaf.searchName ""
  missing : (Place.level schema.fields).value? (.object doc) leaf.location = none →
    findPath? f.path json = some []
  found : ∀ v, (Place.level schema.fields).value? (.object doc) leaf.location = some v →
    ∃ trees, leaf.place.trees (Place.documentPath "" leaf.location) v = .ok trees ∧
      findPath? f.path json = some trees

/-- In the tree of a document, each field of an index finds the trees of the value that its location
leads to, whether the document has the value or a default supplies it. -/
theorem Schema.encodeTree_finds {schema : Schema} (hschema : schema.IsCanonical)
    (hnames : ∀ o ∈ fieldsOccurrences "" schema.fields, Unselecting o.name) (model : String)
    {settings : Settings} (hstorage : settings.storage = .json) {doc : Document} {json : Json}
    (h : schema.encodeTree doc = .ok json) :
    List.Forall₂ (Leaf.FoundBy schema doc json) (leaves (.level schema.fields))
      (schema.indexDefinition model settings).fields := by
  have hroot := resolved_root hschema.sound
  have hnamed : (Place.level schema.fields).Named Unselecting := ⟨"", hnames⟩
  have hwrites : (Place.level schema.fields).Writes "" (.object doc) json := by
    obtain ⟨members, hmembers, rfl⟩ := map_eq_ok.1 h
    exact Or.inr ⟨doc, schema.isLink, members, rfl, rfl, hmembers⟩
  have htexts : List.Forall₂ (fun leaf f => Leaf.texts "$" "" leaf = fieldTexts f)
      (leaves (.level schema.fields)) (schema.indexDefinition model settings).fields := by
    rw [Schema.indexDefinition, hstorage]
    have hequal : List.Forall₂ Eq ((fieldsLeaves schema.fields).map (Leaf.texts "$" ""))
        ((treeFields "$" "" schema.fields).map fieldTexts) := by
      rw [treeFields_texts, List.forall₂_eq_eq_eq]
    exact List.forall₂_map_right_iff.1 (List.forall₂_map_left_iff.1 hequal)
  have hleaves : ∀ leaf ∈ leaves (.level schema.fields), leaf ∈ leaves (.level schema.fields) :=
    fun _ hleaf => hleaf
  refine ((List.forall₂_and_left _ _).2 ⟨hleaves, htexts⟩).imp ?_
  -- Each leaf is paired with the field that the walk wrote for it.
  rintro leaf f ⟨hleaf, htext⟩
  obtain ⟨hat, hfamily⟩ := (mem_leaves hroot).1 hleaf
  obtain ⟨hpath, hname⟩ := Prod.mk.inj htext
  have hfind : findPath? f.path json =
      some (findAll (if leaf.byItems then [.items] else [])
        (findAll (leaf.location.map selectorOf) [json])) := by
    have hread := readSelectors?_treePath (hnamed.names hat)
    rw [← hpath, findPath?, hread, Option.map_some, Leaf.selectors, findAll_append]
  refine ⟨hat, hpath.symm, hname.symm, ?_, ?_⟩
  · intro hnone
    rcases hwrites.at hroot hat with ⟨_, hmissing⟩ | ⟨_, _, hsome, _⟩
    · rw [hfind, hmissing, findAll_nil]
    · rw [hnone] at hsome
      cases hsome
  · intro v hv
    rcases hwrites.at hroot hat with ⟨hnone, _⟩ | ⟨w, inner, hsome, hfound, hinner⟩
    · rw [hv] at hnone
      cases hnone
    · obtain rfl := Option.some.inj (hv.symm.trans hsome)
      refine ⟨_, hinner.trees hfamily, ?_⟩
      rw [hfind, hfound]

/-! ## A visitor's card -/

/-- An object with a default and an array inside, and a tuple with an object at one position. -/
def cardDeclarations : Declarations :=
  [("home", .full { kind := "object" } none (some [("city",
      .full { kind := "string", default := some (.string "Rome") } none none none),
      ("tags", .shorthand "array")]) none),
    ("pair", .full { kind := "tuple" } (some (.positions [.kind "boolean",
      .fields [("label", .shorthand "string"), ("marks", .shorthand "array")]])) none none)]

/-- The schema that a card is declared with. -/
def cardSchema : Schema where
  fields := [
    ("home", .ofKind (.object [
      ("city", .mk (.string ',' false) false false true (some (.string "Rome"))),
      ("tags", .ofKind (.array (.scalar .string) ','))])),
    ("pair", .ofKind (.tuple [.scalar .boolean, .object [
      ("label", .ofKind (.string ',' false)),
      ("marks", .ofKind (.array (.scalar .string) ','))]]))]
  references := []
  relations := []
  warnings := []

/-- The schema of cards comes from its declarations. -/
theorem cardSchema_isCanonical : cardSchema.IsCanonical := by
  refine ⟨cardDeclarations, ⟨by decide, ?_⟩, rfl⟩
  simp +decide [cardDeclarations, declarationsSatisfy, Declaration.Satisfies, declarationsSatisfy?,
    elementsSatisfy?, Elements.Satisfy, positionsSatisfy, Position.Satisfies, Attributes.WellFormed,
    Json.WellFormed]

/-- A card without a city and without marks. -/
def card : Document :=
  [("home", .object [("tags", .array [.string "a", .string "b"])]),
    ("pair", .array [.bool true, .object [("label", .string "x")]])]

/-- The tree of the card, with the default in it. -/
def cardTree : Json :=
  .object [
    ("home", .object [("city", .string "Rome"), ("tags", .array [.string "a", .string "b"])]),
    ("pair", .array [.bool true, .object [("label", .string "x")]])]

/-- The paths of a card find its leaves, a default and both items of an array among them. -/
theorem Schema.encodeTree_finds_card :
    cardSchema.IsCanonical ∧
      (∀ o ∈ fieldsOccurrences "" cardSchema.fields, Unselecting o.name) ∧
      cardSchema.encodeTree card = .ok cardTree ∧
      List.Forall₂ (Leaf.FoundBy cardSchema card cardTree) (leaves (.level cardSchema.fields))
        (cardSchema.indexDefinition "Card" { storage := .json }).fields ∧
      (cardSchema.indexDefinition "Card" { storage := .json }).fields.map IndexField.path =
        ["$.home.city", "$.home.tags[*]", "$.pair[0]", "$.pair[1].label", "$.pair[1].marks[*]"] ∧
      (cardSchema.indexDefinition "Card" { storage := .json }).fields.map
          (fun f => findPath? f.path cardTree) =
        [some [.string "Rome"], some [.string "a", .string "b"], some [.bool true],
          some [.string "x"], some []] := by
  have hnames : ∀ o ∈ fieldsOccurrences "" cardSchema.fields, Unselecting o.name := by decide
  have hwritten : cardSchema.encodeTree card = .ok cardTree := rfl
  exact ⟨cardSchema_isCanonical, hnames, hwritten,
    Schema.encodeTree_finds cardSchema_isCanonical hnames "Card" rfl hwritten, by decide, rfl⟩

end DocumentSchema
