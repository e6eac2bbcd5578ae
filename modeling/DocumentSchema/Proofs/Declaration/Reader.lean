import DocumentSchema.Declaration.Reader
import DocumentSchema.Proofs.Declaration.WellFormed
import DocumentSchema.Proofs.Entries
import DocumentSchema.Proofs.Value.Plain

/-!
# What is read from trees

The declarations that a well-formed tree denotes are well formed, and a tree can hold them
(`satisfies_of_ofJson?`): their maps have the keys of the objects they come from, a null default is
no default, and every number of a tree is finite.
-/

set_option autoImplicit false

namespace DocumentSchema

/-- Options as they come from a tree. -/
structure Attributes.FromTree (a : Attributes) : Prop where
  wellFormed : a.WellFormed
  portable : a.Portable

/-- A number that is read as an option is finite. -/
theorem readOption?_finite {o : Option Json} {x : Option Binary64}
    (h : readOption? Json.toBinary? o = some x) : ∀ y, x = some y → y.isFinite = true := by
  rintro y rfl
  unfold readOption? at h
  split at h
  · cases h
  · cases h
  · obtain ⟨z, hz, hy⟩ := Option.map_eq_some_iff.1 h
    obtain rfl := Option.some.inj hy
    obtain ⟨w, rfl⟩ := Value.exists_of_toBinary? hz
    rfl

/-- An option that is kept as it stands is present and not null. -/
theorem readOption?_self {o default : Option Json} (h : readOption? some o = some default) :
    default ≠ some .null ∧ ∀ json, default = some json → o = some json := by
  unfold readOption? at h
  split at h
  · obtain rfl := Option.some.inj h
    exact ⟨by rintro ⟨⟩, by rintro json ⟨⟩⟩
  · obtain rfl := Option.some.inj h
    exact ⟨by rintro ⟨⟩, by rintro json ⟨⟩⟩
  · rename_i json hnull
    obtain rfl := Option.some.inj h
    exact ⟨fun heq => hnull (Option.some.inj heq), fun _ heq => heq⟩

/-- Options that are read from well-formed values. -/
theorem fromTree_of_read? {option : String → Option Json} {a : Attributes}
    (h : Attributes.read? option = some a)
    (hoption : ∀ json, option "default" = some json → json.WellFormed) : a.FromTree := by
  -- the default, the weight and the epsilon come after 4, 2 and 11 other options
  iterate 4 obtain ⟨_, _, h⟩ := Option.bind_eq_some_iff.1 h
  obtain ⟨default, hdefault, h⟩ := Option.bind_eq_some_iff.1 h
  iterate 2 obtain ⟨_, _, h⟩ := Option.bind_eq_some_iff.1 h
  obtain ⟨weight, hweight, h⟩ := Option.bind_eq_some_iff.1 h
  iterate 11 obtain ⟨_, _, h⟩ := Option.bind_eq_some_iff.1 h
  obtain ⟨epsilon, hepsilon, h⟩ := Option.bind_eq_some_iff.1 h
  obtain ⟨target, _, h⟩ := Option.bind_eq_some_iff.1 h
  obtain rfl := Option.some.inj h
  obtain ⟨hnull, hsame⟩ := readOption?_self hdefault
  exact ⟨fun json hjson => hoption json (hsame json hjson),
    hnull, readOption?_finite hweight, readOption?_finite hepsilon⟩

/-- A default given by name is well-formed where the members are. -/
theorem wellFormed_optionIn {members : Entries Json} (h : membersWellFormed members)
    {json : Json} (hoption : optionIn members "default" = some json) : json.WellFormed := by
  unfold optionIn at hoption
  split at hoption
  · rename_i found hfound
    obtain rfl := Option.some.inj hoption
    exact membersWellFormed_get? h hfound
  · rw [if_neg (by decide)] at hoption
    cases hoption

/-- A default given by its place is well-formed where the items are. -/
theorem wellFormed_optionAt {items : List Json} (h : itemsWellFormed items) {json : Json}
    (hoption : optionAt items "default" = some json) : json.WellFormed :=
  itemsWellFormed_of_mem h json (List.of_mem_zip (Entries.mem_of_get? hoption)).2

/-- Options with declarations inside as they come from a tree. -/
structure NestedOptions.FromTree (nested : NestedOptions) : Prop where
  elements : elementsSatisfy? Attributes.FromTree nested.elements
  properties : declarationsSatisfy? Attributes.FromTree nested.properties
  edge : declarationsSatisfy? Attributes.FromTree nested.edge

mutual

/-- A declaration that is read from a well-formed tree. -/
theorem satisfies_of_ofJson? (json : Json) (hjson : json.WellFormed) {d : Declaration}
    (h : Declaration.ofJson? json = some d) : d.Satisfies Attributes.FromTree := by
  cases json with
  | string kind =>
    obtain rfl := Option.some.inj h
    exact trivial
  | object members =>
    rw [Declaration.ofJson?] at h
    split at h
    · cases h
    · obtain ⟨a, ha, h⟩ := Option.bind_eq_some_iff.1 h
      obtain ⟨nested, hnested, h⟩ := Option.bind_eq_some_iff.1 h
      obtain rfl := Option.some.inj h
      have hfrom := fromTree_of_nestedOptionsIn? members hjson.2 hnested
      exact ⟨fromTree_of_read? ha fun json => wellFormed_optionIn hjson.2, hfrom.elements,
        hfrom.properties, hfrom.edge⟩
  | array items =>
    rw [Declaration.ofJson?] at h
    split at h
    · obtain ⟨a, ha, h⟩ := Option.bind_eq_some_iff.1 h
      obtain ⟨nested, hnested, h⟩ := Option.bind_eq_some_iff.1 h
      obtain rfl := Option.some.inj h
      have hfrom := fromTree_of_nestedOptionsAt? items hjson.2 hnested
      exact ⟨fromTree_of_read? ha fun json => wellFormed_optionAt hjson.2, hfrom.elements,
        hfrom.properties, hfrom.edge⟩
    · cases h
  | null => cases h
  | bool b => cases h
  | number n => cases h
termination_by structural json

/-- Declarations inside that are given by name come from a tree. -/
theorem fromTree_of_nestedOptionsIn? (members : List (String × Json))
    (hmembers : membersWellFormed members) {nested : NestedOptions}
    (h : nestedOptionsIn? members = some nested) : nested.FromTree := by
  cases members with
  | nil =>
    obtain rfl := Option.some.inj h
    exact ⟨trivial, trivial, trivial⟩
  | cons first rest =>
    obtain ⟨name, json⟩ := first
    rw [nestedOptionsIn?] at h
    obtain ⟨others, hothers, h⟩ := Option.bind_eq_some_iff.1 h
    have hfrom := fromTree_of_nestedOptionsIn? rest hmembers.2 hothers
    split at h
    · obtain ⟨elements, helements, h⟩ := Option.bind_eq_some_iff.1 h
      obtain rfl := Option.some.inj h
      exact ⟨satisfy_of_elementsOfJson? json hmembers.1 helements, hfrom.properties, hfrom.edge⟩
    · split at h
      · obtain ⟨properties, hproperties, h⟩ := Option.bind_eq_some_iff.1 h
        obtain rfl := Option.some.inj h
        exact ⟨hfrom.elements, satisfy_of_propertiesOfJson? json hmembers.1 hproperties, hfrom.edge⟩
      · split at h
        · obtain ⟨edge, hedge, h⟩ := Option.bind_eq_some_iff.1 h
          obtain rfl := Option.some.inj h
          exact ⟨hfrom.elements, hfrom.properties, satisfy_of_propertiesOfJson? json hmembers.1 hedge⟩
        · obtain rfl := Option.some.inj h
          exact hfrom
termination_by structural members

/-- Declarations inside that are given by place come from a tree. -/
theorem fromTree_of_nestedOptionsAt? (items : List Json) (hitems : itemsWellFormed items)
    {names : List String} {nested : NestedOptions}
    (h : nestedOptionsAt? names items = some nested) : nested.FromTree := by
  cases items with
  | nil =>
    obtain rfl := Option.some.inj h
    exact ⟨trivial, trivial, trivial⟩
  | cons json rest =>
    rw [nestedOptionsAt?] at h
    obtain ⟨others, hothers, h⟩ := Option.bind_eq_some_iff.1 h
    have hfrom := fromTree_of_nestedOptionsAt? rest hitems.2 hothers
    split at h
    · obtain ⟨elements, helements, h⟩ := Option.bind_eq_some_iff.1 h
      obtain rfl := Option.some.inj h
      exact ⟨satisfy_of_elementsOfJson? json hitems.1 helements, hfrom.properties, hfrom.edge⟩
    · split at h
      · obtain ⟨properties, hproperties, h⟩ := Option.bind_eq_some_iff.1 h
        obtain rfl := Option.some.inj h
        exact ⟨hfrom.elements, satisfy_of_propertiesOfJson? json hitems.1 hproperties, hfrom.edge⟩
      · split at h
        · obtain ⟨edge, hedge, h⟩ := Option.bind_eq_some_iff.1 h
          obtain rfl := Option.some.inj h
          exact ⟨hfrom.elements, hfrom.properties, satisfy_of_propertiesOfJson? json hitems.1 hedge⟩
        · obtain rfl := Option.some.inj h
          exact hfrom
termination_by structural items

/-- The elements of an array come from a tree at every level. -/
theorem satisfy_of_elementsOfJson? (json : Json) (hjson : json.WellFormed)
    {elements : Option Elements} (h : elementsOfJson? json = some elements) :
    elementsSatisfy? Attributes.FromTree elements := by
  cases json with
  | null =>
    obtain rfl := Option.some.inj h
    exact trivial
  | string name =>
    obtain rfl := Option.some.inj h
    exact trivial
  | object members =>
    obtain ⟨fields, hfields, h⟩ := Option.map_eq_some_iff.1 h
    obtain rfl := h
    obtain ⟨hkeys, hsatisfy⟩ := satisfy_of_declarationsOfMembers? members hjson.2 hfields
    exact ⟨hjson.1.of_keys_eq hkeys, hsatisfy⟩
  | array items =>
    obtain ⟨positions, hpositions, h⟩ := Option.map_eq_some_iff.1 h
    obtain rfl := h
    obtain ⟨hlength, hsatisfy⟩ := satisfy_of_positionsOfItems? items hjson.2 hpositions
    exact ⟨hlength ▸ hjson.1, hsatisfy⟩
  | bool b => cases h
  | number n => cases h
termination_by structural json

/-- The properties of an object come from a tree at every level. -/
theorem satisfy_of_propertiesOfJson? (json : Json) (hjson : json.WellFormed)
    {properties : Option Declarations} (h : propertiesOfJson? json = some properties) :
    declarationsSatisfy? Attributes.FromTree properties := by
  cases json with
  | null =>
    obtain rfl := Option.some.inj h
    exact trivial
  | object members =>
    obtain ⟨fields, hfields, h⟩ := Option.map_eq_some_iff.1 h
    obtain rfl := h
    obtain ⟨hkeys, hsatisfy⟩ := satisfy_of_declarationsOfMembers? members hjson.2 hfields
    exact ⟨hjson.1.of_keys_eq hkeys, hsatisfy⟩
  | string name => cases h
  | array items => cases h
  | bool b => cases h
  | number n => cases h
termination_by structural json

/-- Declarations that are read from well-formed members have their keys. -/
theorem satisfy_of_declarationsOfMembers? (members : List (String × Json))
    (hmembers : membersWellFormed members) {declarations : Declarations}
    (h : declarationsOfMembers? members = some declarations) :
    declarations.keys = Entries.keys members ∧
      declarationsSatisfy Attributes.FromTree declarations := by
  cases members with
  | nil =>
    obtain rfl := Option.some.inj h
    exact ⟨rfl, trivial⟩
  | cons first rest =>
    obtain ⟨name, json⟩ := first
    obtain ⟨declaration, hdeclaration, h⟩ := Option.bind_eq_some_iff.1 h
    obtain ⟨others, hothers, h⟩ := Option.bind_eq_some_iff.1 h
    obtain rfl := Option.some.inj h
    obtain ⟨hkeys, hsatisfy⟩ := satisfy_of_declarationsOfMembers? rest hmembers.2 hothers
    exact ⟨congrArg (name :: ·) hkeys, satisfies_of_ofJson? json hmembers.1 hdeclaration, hsatisfy⟩
termination_by structural members

/-- The positions of a tuple, one for each item, come from a tree at every level. -/
theorem satisfy_of_positionsOfItems? (items : List Json) (hitems : itemsWellFormed items)
    {positions : List Position} (h : positionsOfItems? items = some positions) :
    items.length = positions.length ∧ positionsSatisfy Attributes.FromTree positions := by
  cases items with
  | nil =>
    obtain rfl := Option.some.inj h
    exact ⟨rfl, trivial⟩
  | cons json rest =>
    obtain ⟨position, hposition, h⟩ := Option.bind_eq_some_iff.1 h
    obtain ⟨others, hothers, h⟩ := Option.bind_eq_some_iff.1 h
    obtain rfl := Option.some.inj h
    obtain ⟨hlength, hsatisfy⟩ := satisfy_of_positionsOfItems? rest hitems.2 hothers
    exact ⟨congrArg Nat.succ hlength, satisfies_of_positionOfJson? json hitems.1 hposition, hsatisfy⟩
termination_by structural items

/-- A position of a tuple comes from a tree at every level. -/
theorem satisfies_of_positionOfJson? (json : Json) (hjson : json.WellFormed) {position : Position}
    (h : positionOfJson? json = some position) : position.Satisfies Attributes.FromTree := by
  cases json with
  | string name =>
    obtain rfl := Option.some.inj h
    exact trivial
  | object members =>
    obtain ⟨fields, hfields, h⟩ := Option.map_eq_some_iff.1 h
    obtain rfl := h
    obtain ⟨hkeys, hsatisfy⟩ := satisfy_of_declarationsOfMembers? members hjson.2 hfields
    exact ⟨hjson.1.of_keys_eq hkeys, hsatisfy⟩
  | null => cases h
  | array items => cases h
  | bool b => cases h
  | number n => cases h
termination_by structural json

end

end DocumentSchema
