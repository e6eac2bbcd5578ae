import Mathlib.Data.Option.Basic
import DocumentSchema.Proofs.Codec.Hash
import DocumentSchema.Proofs.Codec.Keys
import DocumentSchema.Proofs.Codec.Tree
import DocumentSchema.Proofs.Query.Location

/-!
# Keys of what is written

A hash has the keys of the fields with something to write, and of the other entries of the document
that are not null and not at links. A tree has more: at each level it has the fields that the level of
the document has, nulls among them, those with defaults, and all other entries, links too except at
the root. The levels of a tree are found by following a location step by step in the kinds, in the
document and in the tree (`Kind.Writes.at`); a value that is missing in the document is missing in the
tree (`Schema.encoded_keys`).
-/

set_option autoImplicit false

namespace DocumentSchema

open Outcome

open Query (Step)

/-! ## Keys of a hash -/

/-- A hash has the keys of the fields whose value is not null, and of the other entries of the
document that are not null and not at links. -/
theorem Schema.contains_encodeHash {schema : Schema} (hfields : schema.fields.Ordered)
    {doc : Document} {hash : Entries String} (h : schema.encodeHash doc = .ok hash) (name : String) :
    hash.contains name = true ↔
      (∃ field v, schema.fields.get? name = some field ∧
        effective doc name field.default = some v ∧ v.isNull = false) ∨
      schema.fields.contains name = false ∧ schema.isLink name = false ∧
        ∃ v, (name, v) ∈ doc ∧ v.isNull = false := by
  obtain ⟨described, hdescribed, h⟩ := bind_eq_ok.1 h
  obtain ⟨more, hmore, h⟩ := bind_eq_ok.1 h
  obtain rfl := pure_eq_ok.1 h
  rw [Entries.contains_insertAll, Bool.or_eq_true, or_comm]
  refine or_congr ?_ ?_
  · rw [Entries.contains_eq_of_keys (Hash.keys_encodeFields_eq hdescribed), Entries.contains_iff]
    constructor
    · rintro ⟨⟨key, field⟩, hmem, rfl⟩
      obtain ⟨hfield, hvalue⟩ := List.mem_filter.1 hmem
      dsimp only at hvalue
      cases heffective : effective doc key field.default with
      | none =>
        rw [heffective] at hvalue
        cases hvalue
      | some v =>
        rw [heffective, Option.getD_some, Bool.not_eq_true'] at hvalue
        exact ⟨field, v, hfields.distinct.get?_of_mem hfield, heffective, hvalue⟩
    · rintro ⟨field, v, hget, heffective, hvalue⟩
      refine ⟨(name, field), List.mem_filter.2 ⟨Entries.mem_of_get? hget, ?_⟩, rfl⟩
      dsimp only
      rw [heffective, Option.getD_some, hvalue]
      rfl
  · rw [Entries.contains_eq_of_keys (Hash.keys_encodeUndescribed_eq hmore), Entries.contains_iff]
    constructor
    · rintro ⟨⟨key, v⟩, hmem, rfl⟩
      obtain ⟨hother, hvalue⟩ := List.mem_filter.1 hmem
      obtain ⟨hothers, hlink⟩ := List.mem_filter.1 hother
      obtain ⟨hdoc, hfield⟩ := mem_undescribed.1 hothers
      rw [Bool.not_eq_true'] at hlink hvalue
      exact ⟨hfield, hlink, v, hdoc, hvalue⟩
    · rintro ⟨hfield, hlink, v, hdoc, hvalue⟩
      refine ⟨(name, v), List.mem_filter.2 ⟨List.mem_filter.2 ⟨?_, ?_⟩, ?_⟩, rfl⟩
      · exact mem_undescribed.2 ⟨hdoc, hfield⟩
      · rwa [Bool.not_eq_true']
      · rwa [Bool.not_eq_true']

/-! ## Locations in kinds, documents and trees -/

/-- The kind that an element has as a field. -/
def Element.kind : Element → Kind
  | .scalar kind => .ofScalar kind
  | .object fields => .object fields

namespace Kind

/-- The kind one step further: of a field of an object, of the items of an array, or of a position
of a tuple. -/
def inner? : Kind → Step → Option Kind
  | .object fields, .member name => (Entries.get? fields name).map Field.kind
  | .array element _, .position _ => some element.kind
  | .tuple positions, .position index => positions[index]?.map Element.kind
  | _, _ => none

/-- The value one step further from a value of the kind; a field that is missing has its default. -/
def innerValue? : Kind → Step → Value → Option Value
  | .object fields, .member name, .object doc =>
    (Entries.get? fields name).bind fun field => effective doc name field.default
  | .array _ _, .position index, .array vs => vs[index]?
  | .tuple _, .position index, .array vs => vs[index]?
  | _, _, _ => none

/-- The kind at the end of a location, if it leads to one. -/
def at? (kind : Kind) : List Step → Option Kind
  | [] => some kind
  | step :: rest => (kind.inner? step).bind fun next => next.at? rest

/-- The value at the end of a location, if there is one. -/
def valueAt? (kind : Kind) (v : Value) : List Step → Option Value
  | [] => some v
  | step :: rest =>
    (kind.inner? step).bind fun next => (kind.innerValue? step v).bind fun w => next.valueAt? w rest

end Kind

namespace Json

/-- The tree one step further. -/
def inner? : Json → Step → Option Json
  | .object members, .member name => Entries.get? members name
  | .array items, .position index => items[index]?
  | _, _ => none

/-- What a location leads to in a tree. -/
def at? (json : Json) : List Step → Option Json
  | [] => some json
  | step :: rest => (json.inner? step).bind fun next => next.at? rest

end Json

/-! ## Levels -/

/-- The members of a level in a tree are those of its fields that the level of the document has or
that have defaults, and those that no field describes unless skipped. -/
def KeysWritten (fields : Entries Field) (skip : String → Bool) (level : Document)
    (members : Entries Json) : Prop :=
  ∀ name, members.contains name = true ↔
    (∃ field, fields.get? name = some field ∧
      (level.contains name = true ∨ field.default.isSome = true)) ∨
    fields.contains name = false ∧ level.contains name = true ∧ skip name = false

/-- What is written where a level is expected: a null as it stands, and a level with its keys. -/
inductive LevelWritten (fields : Entries Field) (skip : String → Bool) : Value → Json → Prop
  | null : LevelWritten fields skip .null .null
  | object {level : Document} {members : Entries Json}
      (h : KeysWritten fields skip level members) :
      LevelWritten fields skip (.object level) (.object members)

namespace Tree

/-- A field has a value in a document that has it or by its default. -/
theorem isSome_effective (doc : Document) (name : String) (default : Option Value) :
    (effective doc name default).isSome = (doc.contains name || default.isSome) := by
  unfold effective Entries.contains
  cases doc.get? name <;> rfl

/-- The members of a level are its fields with values and what no field describes. -/
theorem keys_encodeMembers {path : String} {fields : Entries Field} (hfields : fields.Ordered)
    {skip : String → Bool} {level : Document} {members : Entries Json}
    (h : encodeMembers fields skip (fun doc => encodeFields path fields doc) level = .ok members) :
    KeysWritten fields skip level members := by
  obtain ⟨inside, hinside, h⟩ := bind_eq_ok.1 h
  obtain rfl := pure_eq_ok.1 h
  intro name
  have hothers : Entries.contains
      (Value.membersToJson ((undescribed fields level).filter fun e => !skip e.1)) name =
        (!skip name && (!fields.contains name && level.contains name)) := by
    rw [← contains_undescribed, Value.membersToJson_eq, Entries.contains, Entries.get?_mapValues,
      Option.isSome_map, Entries.get?_filter fun key => !skip key]
    cases skip name <;> simp [Entries.contains]
  rw [Entries.contains_insertAll, hothers, Bool.or_eq_true, or_comm]
  refine or_congr ?_ ?_
  · rw [Entries.contains_eq_of_keys (keys_encodeFields_eq hinside), Entries.contains_iff]
    constructor
    · rintro ⟨⟨key, field⟩, hmem, rfl⟩
      obtain ⟨hfield, hsome⟩ := List.mem_filter.1 hmem
      rw [isSome_effective, Bool.or_eq_true] at hsome
      exact ⟨field, hfields.distinct.get?_of_mem hfield, hsome⟩
    · rintro ⟨field, hget, hsome⟩
      refine ⟨(name, field), List.mem_filter.2 ⟨Entries.mem_of_get? hget, ?_⟩, rfl⟩
      rw [isSome_effective, Bool.or_eq_true]
      exact hsome
  · rw [Bool.and_eq_true, Bool.and_eq_true, Bool.not_eq_true', Bool.not_eq_true', and_comm,
      and_assoc]

/-- An element is written as a field of its kind. -/
theorem encodeElement_eq (path : String) (element : Element) (v : Value) :
    encodeElement path element v = encodeKind path element.kind v := by
  cases element with
  | scalar kind => rw [encodeElement, encodeScalar_eq, Element.kind]
  | object fields => rfl

/-- The trees of the items of an array stand where the items do. -/
theorem getElem?_encodeItems {write : String → Value → Except EncodeError Json}
    {r : Value → Json → Prop} (hwrite : ∀ path v json, write path v = .ok json → r v json)
    {path : String} {start : Nat} {vs : List Value} {jsons : List Json}
    (h : encodeItems path write start vs = .ok jsons) (index : Nat) :
    Option.Rel r vs[index]? jsons[index]? := by
  induction vs generalizing start jsons index with
  | nil =>
    obtain rfl := Except.ok.inj h
    exact .none
  | cons v rest ih =>
    obtain ⟨json, hjson, h⟩ := bind_eq_ok.1 h
    obtain ⟨others, hothers, h⟩ := bind_eq_ok.1 h
    obtain rfl := pure_eq_ok.1 h
    cases index with
    | zero => exact .some (hwrite _ _ _ hjson)
    | succ index => exact ih hothers index

end Tree

/-! ## Along a location -/

namespace Kind

/-- The tree that a value of a kind is written as. -/
def Writes (kind : Kind) (v : Value) (json : Json) : Prop :=
  ∃ path, Tree.encodeKind path kind v = .ok json

/-- A member of a level is written if there is a value for it, whatever other members are. -/
theorem writes_members {path : String} {fields : Entries Field} (hfields : fields.Ordered)
    {skip : String → Bool} {level : Document} {members : Entries Json}
    (h : Tree.encodeMembers fields skip (fun doc => Tree.encodeFields path fields doc) level =
      .ok members) {step : Step} {next : Kind} (hnext : (object fields).inner? step = some next) :
    Option.Rel next.Writes ((object fields).innerValue? step (.object level))
      ((Json.object members).inner? step) := by
  cases step with
  | position index => cases hnext
  | member name =>
    obtain ⟨field, hget, rfl⟩ := Option.map_eq_some_iff.1 hnext
    rw [innerValue?, hget, Option.bind_some, Json.inner?]
    rcases Tree.get?_encodeLevel hfields h hget with
      ⟨hnone, hmissing⟩ | ⟨v, json, hsome, hjson, hwrites⟩
    · rw [hnone, hmissing]
      exact .none
    · rw [hsome, hjson]
      exact .some ⟨_, hwrites⟩

/-- Related options stay related in a weaker way. -/
theorem rel_imp {α β : Type} {r q : α → β → Prop} {a : Option α} {b : Option β}
    (h : Option.Rel r a b) (himp : ∀ x y, r x y → q x y) : Option.Rel q a b := by
  cases h with
  | none => exact .none
  | some hr => exact .some (himp _ _ hr)

/-- What is found further on is as that from which it is found. -/
theorem rel_bind {α β γ δ : Type} {r : α → β → Prop} {q : γ → δ → Prop} {a : Option α}
    {b : Option β} (h : Option.Rel r a b) {f : α → Option γ} {g : β → Option δ}
    (hfurther : ∀ x y, r x y → Option.Rel q (f x) (g y)) : Option.Rel q (a.bind f) (b.bind g) := by
  cases h with
  | none => exact .none
  | some hr => exact hfurther _ _ hr

/-- What is written for an object is null for null and the members of its level otherwise. -/
theorem Writes.object {fields : Entries Field} {v : Value} {json : Json}
    (h : (Kind.object fields).Writes v json) : (v = .null ∧ json = .null) ∨
      ∃ path level members, v = .object level ∧ json = .object members ∧
        Tree.encodeMembers fields Tree.skipNone (fun doc => Tree.encodeFields path fields doc)
          level = .ok members := by
  obtain ⟨path, h⟩ := h
  rcases Tree.encodeKind_object h with hnull | ⟨level, members, hlevel, hjson, hmembers⟩
  · exact Or.inl hnull
  · exact Or.inr ⟨path, level, members, hlevel, hjson, hmembers⟩

/-- The items of an array are written where they stand. -/
theorem Writes.item {element : Element} {separator : Char} {v : Value} {json : Json}
    (h : (Kind.array element separator).Writes v json) (index : Nat) :
    Option.Rel element.kind.Writes ((Kind.array element separator).innerValue? (.position index) v)
      (json.inner? (.position index)) := by
  obtain ⟨path, h⟩ := h
  cases v with
  | null =>
    obtain rfl := Except.ok.inj h
    exact .none
  | array vs =>
    obtain ⟨ws, hws, h⟩ := bind_eq_ok.1 h
    obtain rfl := Admission.items_eq_ok hws
    obtain ⟨jsons, hjsons, h⟩ := bind_eq_ok.1 h
    obtain rfl := pure_eq_ok.1 h
    refine Tree.getElem?_encodeItems ?_ hjsons index
    intro below w inner hwrites
    rw [Tree.encodeElement_eq] at hwrites
    exact ⟨below, hwrites⟩
  | _ => cases h

/-- The positions of a tuple are written where they stand. -/
theorem Writes.position {positions : List Element} {v : Value} {json : Json}
    (h : (Kind.tuple positions).Writes v json) {index : Nat} {element : Element}
    (hget : positions[index]? = some element) :
    Option.Rel element.kind.Writes ((Kind.tuple positions).innerValue? (.position index) v)
      (json.inner? (.position index)) := by
  obtain ⟨path, h⟩ := h
  rcases Tree.encodeKind_tuple h hget with
    ⟨rfl, rfl⟩ | ⟨vs, jsons, w, inner, rfl, rfl, hw, hinner, hwrites⟩
  · exact .none
  · rw [Tree.encodeElement_eq] at hwrites
    show Option.Rel _ vs[index]? jsons[index]?
    rw [hw, hinner]
    exact .some ⟨_, hwrites⟩

/-- A resolved element is of a resolved kind. -/
theorem resolved_elementKind {element : Element} {indexed : Bool} (h : element.Resolved indexed) :
    element.kind.Resolved indexed := by
  cases element with
  | scalar kind =>
    cases kind with
    | number => rintro _ ⟨⟩
    | text => exact ⟨rfl, by decide +kernel⟩
    | _ => exact trivial
  | object fields => exact h

/-- What resolution guarantees of a kind it guarantees one step further. -/
theorem resolved_inner {kind next : Kind} (h : ∃ indexed, kind.Resolved indexed) {step : Step}
    (hnext : kind.inner? step = some next) : ∃ indexed, next.Resolved indexed := by
  obtain ⟨indexed, h⟩ := h
  cases kind with
  | object fields =>
    cases step with
    | position index => cases hnext
    | member name =>
      obtain ⟨field, hget, rfl⟩ := Option.map_eq_some_iff.1 hnext
      have hfield := fieldResolved_of_mem h.2 _ (Entries.mem_of_get? hget)
      obtain ⟨kind, optional, sortable, below, default⟩ := field
      exact ⟨below, hfield.2.2.1⟩
  | array element separator =>
    cases step with
    | member name => cases hnext
    | position index =>
      obtain rfl := Option.some.inj hnext
      exact ⟨indexed, resolved_elementKind h.2⟩
  | tuple positions =>
    cases step with
    | member name => cases hnext
    | position index =>
      obtain ⟨element, hget, rfl⟩ := Option.map_eq_some_iff.1 hnext
      exact ⟨indexed, resolved_elementKind
        (elementResolved_of_mem h.2.2 _ (List.mem_of_getElem? hget))⟩
  | _ => cases step <;> cases hnext

/-- The kind at a location of a resolved kind is resolved. -/
theorem resolved_at {kind target : Kind} (h : ∃ indexed, kind.Resolved indexed)
    {location : List Step} (hat : kind.at? location = some target) :
    ∃ indexed, target.Resolved indexed := by
  induction location generalizing kind with
  | nil =>
    obtain rfl := Option.some.inj hat
    exact h
  | cons step rest ih =>
    obtain ⟨next, hnext, hat⟩ := Option.bind_eq_some_iff.1 hat
    exact ih (resolved_inner h hnext) hat

/-- One step from a value and its tree leads to a value and its tree, or to nothing in either. -/
theorem Writes.inner {kind next : Kind} (hkind : ∃ indexed, kind.Resolved indexed) {v : Value}
    {json : Json} (h : kind.Writes v json) {step : Step} (hnext : kind.inner? step = some next) :
    Option.Rel next.Writes (kind.innerValue? step v) (json.inner? step) := by
  cases kind with
  | object fields =>
    obtain ⟨_, hfields, _⟩ := hkind
    rcases h.object with ⟨rfl, rfl⟩ | ⟨path, level, members, rfl, rfl, hmembers⟩
    · cases step <;> exact .none
    · exact writes_members hfields hmembers hnext
  | array element separator =>
    cases step with
    | member name => cases hnext
    | position index =>
      obtain rfl := Option.some.inj hnext
      exact h.item index
  | tuple positions =>
    cases step with
    | member name => cases hnext
    | position index =>
      obtain ⟨element, hget, rfl⟩ := Option.map_eq_some_iff.1 hnext
      exact h.position hget
  | _ => cases step <;> cases hnext

/-- Along a location the tree has the trees of the values that the document has there. -/
theorem Writes.at {kind target : Kind} (hkind : ∃ indexed, kind.Resolved indexed) {v : Value}
    {json : Json} (h : kind.Writes v json) {location : List Step}
    (hat : kind.at? location = some target) :
    Option.Rel target.Writes (kind.valueAt? v location) (json.at? location) := by
  induction location generalizing kind v json with
  | nil =>
    obtain rfl := Option.some.inj hat
    exact .some h
  | cons step rest ih =>
    obtain ⟨next, hnext, hat⟩ := Option.bind_eq_some_iff.1 hat
    rw [valueAt?, hnext, Option.bind_some, Json.at?]
    refine rel_bind (h.inner hkind hnext) ?_
    intro w inner hwrites
    exact ih (resolved_inner hkind hnext) hwrites hat

/-- An object is written as a level with its keys, or as the null that it is. -/
theorem Writes.level {fields : Entries Field} (hfields : fields.Ordered) {v : Value} {json : Json}
    (h : (Kind.object fields).Writes v json) : LevelWritten fields Tree.skipNone v json := by
  rcases h.object with ⟨rfl, rfl⟩ | ⟨path, level, members, rfl, rfl, hmembers⟩
  · exact .null
  · exact .object (Tree.keys_encodeMembers hfields hmembers)

end Kind

/-- The levels of a tree: wherever a location leads to a level in the schema, the tree of a document
has there what the document has, with the keys of that level. Only the root leaves out links. -/
theorem Schema.levels_encodeTree {schema : Schema} (hschema : schema.IsCanonical) {doc : Document}
    {json : Json} (h : schema.encodeTree doc = .ok json) {location : List Step}
    {fields : Entries Field} (hat : (Kind.object schema.fields).at? location = some (.object fields)) :
    Option.Rel (LevelWritten fields (if location = [] then schema.isLink else Tree.skipNone))
      ((Kind.object schema.fields).valueAt? (.object doc) location) (json.at? location) := by
  have hsound := hschema.sound
  obtain ⟨members, hmembers, rfl⟩ := map_eq_ok.1 h
  have hroot : ∃ indexed, (Kind.object schema.fields).Resolved indexed :=
    ⟨true, hsound.ordered, hsound.resolved⟩
  cases location with
  | nil =>
    obtain rfl : schema.fields = fields := Kind.object.inj (Option.some.inj hat)
    rw [if_pos rfl]
    exact .some (.object (Tree.keys_encodeMembers hsound.ordered hmembers))
  | cons step rest =>
    rw [if_neg (List.cons_ne_nil _ _)]
    obtain ⟨next, hnext, hat⟩ := Option.bind_eq_some_iff.1 hat
    rw [Kind.valueAt?, hnext, Option.bind_some, Json.at?]
    refine Kind.rel_bind (Kind.writes_members hsound.ordered hmembers hnext) ?_
    intro w inner hwrites
    have hinner := Kind.resolved_inner hroot hnext
    obtain ⟨_, htarget, _⟩ := Kind.resolved_at hinner hat
    exact Kind.rel_imp (hwrites.at hinner hat) fun _ _ hlevel => hlevel.level htarget

/-- A hash has the keys of the fields whose value, their own or the default, is not null, and of the
other entries of the document that are not null and not at links. A tree has, wherever there is a
level of the schema, the null or the missing value that the document has there, or a level whose keys
are those of the fields that the document's level has or that have defaults, and all other keys of the
document's level, except links at the root. -/
theorem Schema.encoded_keys {schema : Schema} (hschema : schema.IsCanonical) (doc : Document) :
    (∀ hash, schema.encodeHash doc = .ok hash → ∀ name, hash.contains name = true ↔
      (∃ field v, schema.fields.get? name = some field ∧
        effective doc name field.default = some v ∧ v.isNull = false) ∨
      schema.fields.contains name = false ∧ schema.isLink name = false ∧
        ∃ v, (name, v) ∈ doc ∧ v.isNull = false) ∧
    (∀ json, schema.encodeTree doc = .ok json → ∀ (location : List Step) (fields : Entries Field),
      (Kind.object schema.fields).at? location = some (.object fields) →
        Option.Rel (LevelWritten fields (if location = [] then schema.isLink else Tree.skipNone))
          ((Kind.object schema.fields).valueAt? (.object doc) location) (json.at? location)) :=
  ⟨fun _ h name => contains_encodeHash hschema.sound.ordered h name,
    fun _ h _ _ hat => levels_encodeTree hschema h hat⟩

/-! ## A trip with stops -/

/-- Stops with names of their own or by default, a title with a default, and a reference. -/
def tripDeclarations : Declarations :=
  [("owner", .full { kind := "reference", target := some "Person" } none none none),
    ("stops", .full { kind := "array" } (some (.fields [
      ("name", .full { kind := "string", default := some (.string "?") } none none none),
      ("note", .shorthand "string")])) none none),
    ("title", .full { kind := "string", default := some (.string "Trip") } none none none)]

/-- The fields of a stop. -/
def stopFields : Entries Field :=
  [("name", .mk (.string ',' false) false false false (some (.string "?"))),
    ("note", .mk (.string ',' false) false false false none)]

/-- The schema that a trip is declared with. -/
def tripSchema : Schema where
  fields := [
    ("stops", .mk (.array (.object stopFields) ',') false false false none),
    ("title", .mk (.string ',' false) false false true (some (.string "Trip")))]
  references := [("owner", ⟨.named "Person", false⟩)]
  relations := []
  warnings := [.unsearchableArray "stops"]

/-- The schema of trips comes from its declarations. -/
theorem tripSchema_isCanonical : tripSchema.IsCanonical := by
  refine ⟨tripDeclarations, ⟨by decide, ?_⟩, rfl⟩
  simp +decide [tripDeclarations, declarationsSatisfy, Declaration.Satisfies, declarationsSatisfy?,
    elementsSatisfy?, Elements.Satisfy, Attributes.WellFormed, Json.WellFormed]

/-- A stop without a name, with a null and with an entry at the name of a link. -/
def stop : Document := [("note", .null), ("owner", .string "8")]

/-- A trip with one stop and a null, and without its title. -/
def trip : Document :=
  [("owner", .string "7"), ("seen", .null), ("stops", .array [.object stop, .null])]

/-- The tree of the trip: the reference is left out at the top, and kept inside the stop. -/
def tripTree : Json :=
  .object [("seen", .null), ("stops", .array [
    .object [("name", .string "?"), ("note", .null), ("owner", .string "8")], .null]),
    ("title", .string "Trip")]

/-- The tree of a trip leaves out the owner of the trip, but not that of a stop. A hash has no place
for stops, and leaves out nulls as well. -/
theorem Schema.encoded_keys_trip :
    tripSchema.IsCanonical ∧ tripSchema.encodeTree trip = .ok tripTree ∧
      Option.Rel (LevelWritten stopFields Tree.skipNone) (some (.object stop))
        (some (.object [("name", .string "?"), ("note", .null), ("owner", .string "8")])) ∧
      tripSchema.encodeHash [("owner", .string "7"), ("seen", .null)] =
        .ok [("title", "Trip")] ∧
      ¬∃ v, ("seen", v) ∈ [("owner", Value.string "7"), ("seen", .null)] ∧ v.isNull = false := by
  have htree : tripSchema.encodeTree trip = .ok tripTree := rfl
  have hhash : tripSchema.encodeHash [("owner", .string "7"), ("seen", .null)] =
      .ok [("title", "Trip")] := rfl
  have hlevel := (encoded_keys tripSchema_isCanonical trip).2 tripTree htree
    [.member "stops", .position 0] stopFields rfl
  have hkeys := (encoded_keys tripSchema_isCanonical _).1 _ hhash "seen"
  refine ⟨tripSchema_isCanonical, htree, hlevel, hhash, ?_⟩
  intro hseen
  exact absurd (hkeys.2 (Or.inr ⟨rfl, rfl, hseen⟩)) (by decide)

end DocumentSchema
