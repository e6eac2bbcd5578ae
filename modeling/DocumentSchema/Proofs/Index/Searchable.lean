import DocumentSchema.Proofs.Index.Paths

/-!
# An index has what a search accepts

The fields of an index come from walking down a schema, the clauses of a search from walking along
one path. Both reach the same fields: in the order of the paths of the schema, the names and
families of the index fields are those of the clauses that a search accepts
(`Schema.indexDefinition_fields_eq`). The walk down an object or a tuple carries the invariant that
its dotted path leads the search to the same place.
-/

set_option autoImplicit false

namespace DocumentSchema.Index

open Query

/-- What a search has to know of an index field: its name and its family. -/
def fieldEntry (f : IndexField) : String × Option String := (f.searchName, f.attributes.head?)

/-- The entry for a path that leads to a searchable field. -/
def entryAt? (storage : Storage) (root : Entries Field) (path : String) :
    Option (String × Option String) :=
  (family? storage root path).map fun family => (searchName path, some family.label)

/-! ## The first attribute is the family -/

/-- The attributes for the elements of an array begin with their family. -/
theorem head?_elementAttributes (storage : Storage) (kind : Scalar) :
    (elementAttributes kind).head? = some (Matcher.ofScalar storage kind).family.label := by
  cases kind <;> rfl

/-- The attributes of a leaf field begin with its family. -/
theorem head?_leafAttributes (storage : Storage) (sortable : Bool) {kind : Kind}
    (h : kind.isLeaf = true) :
    (leafAttributes sortable kind).map List.head? =
      ((Place.field kind).family? storage).map fun family => some family.label := by
  cases kind with
  | array element separator => cases h
  | tuple positions => cases h
  | object fields => cases h
  | _ => rfl

/-- In a hash, arrays of scalars are tags on both sides. -/
theorem head?_hashAttributes (sortable : Bool) (kind : Kind) :
    (hashAttributes sortable kind).map List.head? =
      ((Place.field kind).family? .hash).map fun family => some family.label := by
  cases kind with
  | array element separator => cases element <;> rfl
  | _ => rfl

/-! ## What a path leads to -/

/-- A path that leads nowhere has no entry. -/
theorem entryAt?_none {root : Entries Field} {path : String}
    (h : (Place.level root).reach? (segments path) = none) (storage : Storage) :
    entryAt? storage root path = none := by
  rw [entryAt?, family?, h]
  rfl

/-- In a tree a path has the entry of the place that it leads to. -/
theorem entryAt?_json {root : Entries Field} {path : String} {place : Place}
    (h : (Place.level root).reach? (segments path) = some place) :
    entryAt? .json root path =
      (place.family? .json).map fun family => (searchName path, some family.label) := by
  have hstorage : ¬ (Storage.json = .hash ∧ 1 < (segments path).length) := by
    intro hhash
    cases hhash.1
  rw [entryAt?, family?, h, Option.bind_some, if_neg hstorage]

/-- A place without a family of its own has no entry. -/
theorem entryAt?_closed {root : Entries Field} {path : String} {place : Place}
    (h : (Place.level root).reach? (segments path) = some place)
    (hfamily : place.family? .json = none) : entryAt? .json root path = none := by
  rw [entryAt?_json h, hfamily, Option.map_none]

/-- Names lead on from a place as they do from the fields that it holds. -/
theorem reach?_name {root fields : Entries Field} {dotted : String} {place : Place}
    (h : (Place.level root).reach? (segments dotted) = some place)
    (hplace : ∀ name, place.step? name = (Place.level fields).step? name) (name : String) :
    (Place.level root).reach? (segments dotted ++ [name]) = (Place.level fields).step? name := by
  rw [Place.reach?_append, h, Option.bind_some, Place.reach?_singleton, hplace]

/-- Where no longer path leads anywhere, no path below leads to a searchable field. -/
theorem filterMap_below {root : Entries Field} {dotted : String} {paths : List String}
    (hbelow : ∀ path ∈ paths, Below dotted path)
    (h : ∀ segment rest,
      (Place.level root).reach? (segments dotted ++ segment :: rest) = none) (storage : Storage) :
    paths.filterMap (entryAt? storage root) = [] := by
  rw [List.filterMap_eq_nil_iff]
  intro path hpath
  obtain ⟨segment, rest, hsegments⟩ := hbelow path hpath
  have hreach : (Place.level root).reach? (segments path) = none := by
    rw [hsegments]
    exact h segment rest
  exact entryAt?_none hreach storage

/-- A refused path and the paths below it have no entries. -/
theorem filterMap_refused {root : Entries Field} {dotted : String} {paths : List String}
    (hreach : (Place.level root).reach? (segments dotted) = none)
    (hbelow : ∀ path ∈ paths, Below dotted path) (storage : Storage) :
    (dotted :: paths).filterMap (entryAt? storage root) = [] := by
  have hstop : ∀ segment rest,
      (Place.level root).reach? (segments dotted ++ segment :: rest) = none := by
    intro segment rest
    exact Place.reach?_append_none hreach (segment :: rest)
  rw [List.filterMap_cons, entryAt?_none hreach]
  exact filterMap_below hbelow hstop storage

/-! ## Trees -/

/-- The index field of a leaf of a tree is the entry of its path. -/
theorem treeLeaf_entries {kind : Kind} (hleaf : kind.isLeaf = true) {root : Entries Field}
    {dotted : String} (hreach : (Place.level root).reach? (segments dotted) = some (.field kind))
    (sortable : Bool) (treePath : String) :
    (match leafAttributes sortable kind with
      | none => []
      | some attributes => [IndexField.mk treePath (searchName dotted) attributes]).map fieldEntry =
      [dotted].filterMap (entryAt? .json root) := by
  have hhead := head?_leafAttributes .json sortable hleaf
  rw [List.filterMap_cons, entryAt?_json hreach, List.filterMap_nil]
  cases hfamily : (Place.field kind).family? .json with
  | none =>
    rw [hfamily, Option.map_none, Option.map_eq_none_iff] at hhead
    rw [hhead]
    rfl
  | some family =>
    rw [hfamily, Option.map_some] at hhead
    obtain ⟨attributes, hattributes, hhead⟩ := Option.map_eq_some_iff.1 hhead
    rw [hattributes, Option.map_some]
    show [(searchName dotted, attributes.head?)] = _
    rw [hhead]

mutual

/-- Below a field that a search reaches, the index fields are the paths that it accepts. -/
theorem treeKind_entries (kind : Kind) {indexed : Bool} (hkind : kind.Resolved indexed)
    (hplain : kindPlain kind) {root : Entries Field} {dotted : String}
    (hreach : (Place.level root).reach? (segments dotted) = some (.field kind))
    (sortable : Bool) (treePath : String) :
    (treeKind sortable treePath dotted kind).map fieldEntry =
      (dotted :: kindPaths dotted kind).filterMap (entryAt? .json root) := by
  cases kind with
  | object fields =>
    have hall : ∀ e ∈ fields, Entries.get? fields e.1 = some e.2 := by
      intro e he
      exact hkind.1.distinct.get?_of_mem he
    rw [List.filterMap_cons, entryAt?_closed hreach rfl]
    exact treeFields_entries fields hkind.2 hplain (reach?_name hreach fun _ => rfl) hall treePath
  | array element separator =>
    cases element with
    | scalar kind =>
      rw [List.filterMap_cons, entryAt?_json hreach]
      show [(searchName dotted, (elementAttributes kind).head?)] = _
      rw [head?_elementAttributes .json]
      rfl
    | object fields =>
      -- An array of objects has no entry, and no segment leads further from it.
      have hstop : ∀ segment rest,
          (Place.level root).reach? (segments dotted ++ segment :: rest) = none := by
        intro segment rest
        rw [Place.reach?_append, hreach]
        rfl
      rw [List.filterMap_cons, entryAt?_closed hreach rfl]
      exact (filterMap_below (below_elementPaths (.object fields) hplain dotted) hstop .json).symm
  | tuple positions =>
    rw [List.filterMap_cons, entryAt?_closed hreach rfl]
    exact treePositions_entries positions hkind.2.2 hplain hkind.2.1 rfl hreach treePath
  | _ => exact treeLeaf_entries rfl hreach sortable treePath
termination_by structural kind

/-- The same for the positions of a tuple from an index on. -/
theorem treePositions_entries (positions : List Element) {indexed : Bool}
    (hpositions : positionsResolved indexed positions) (hplain : positionsPlain positions)
    {root : Entries Field} {dotted : String} {all : List Element}
    (hcount : all.length < countLimit) {index : Nat} (hall : all.drop index = positions)
    (hreach : (Place.level root).reach? (segments dotted) = some (.field (.tuple all)))
    (treePath : String) :
    (treePositions treePath dotted index positions).map fieldEntry =
      (positionPaths dotted index positions).filterMap (entryAt? .json root) := by
  cases positions with
  | nil => rfl
  | cons element rest =>
    have hget : all[index]? = some element := by
      rw [← Nat.add_zero index, ← List.getElem?_drop, hall]
      rfl
    have hrest : all.drop (index + 1) = rest := by rw [← List.tail_drop, hall, List.tail_cons]
    have hhere : (Place.level root).reach?
        (segments (dotted ++ "." ++ Decimal.natText index)) = some (Place.ofElement element) := by
      rw [segments_position, Place.reach?_append, hreach, Option.bind_some,
        Place.reach?_singleton, Place.step?_tuple hcount hget]
    rw [treePositions, positionPaths, List.map_append, List.filterMap_append,
      treePosition_entries element hpositions.1 hplain.1 hhere,
      treePositions_entries rest hpositions.2 hplain.2 hcount hrest hreach]
termination_by structural positions

/-- The index fields of one position of a tuple are the entries for its paths. -/
theorem treePosition_entries (element : Element) {indexed : Bool}
    (helement : element.Resolved indexed) (hplain : elementPlain element) {root : Entries Field}
    {dotted : String}
    (hreach : (Place.level root).reach? (segments dotted) = some (Place.ofElement element))
    (treePath : String) :
    (treePosition treePath dotted element).map fieldEntry =
      (dotted :: elementPaths dotted element).filterMap (entryAt? .json root) := by
  rw [List.filterMap_cons, entryAt?_json hreach]
  cases element with
  | scalar kind =>
    show [(searchName dotted, (elementAttributes kind).head?)] = _
    rw [head?_elementAttributes .json]
    rfl
  | object fields =>
    have hall : ∀ e ∈ fields, Entries.get? fields e.1 = some e.2 := by
      intro e he
      exact helement.1.distinct.get?_of_mem he
    exact treeFields_entries fields helement.2 hplain (reach?_name hreach fun _ => rfl) hall treePath
termination_by structural element

/-- The same for some fields of a level that a search reaches. -/
theorem treeFields_entries (fields : List (String × Field)) {inherited : Bool}
    (hfields : fieldsResolved inherited fields) (hplain : fieldsPlain fields)
    {root all : Entries Field} {dotted : String}
    (hreach : ∀ name, (Place.level root).reach? (segments dotted ++ [name]) =
      (Place.level all).step? name)
    (hall : ∀ e ∈ fields, all.get? e.1 = some e.2) (treePath : String) :
    (treeFields treePath dotted fields).map fieldEntry =
      (fieldPaths dotted fields).filterMap (entryAt? .json root) := by
  cases fields with
  | nil => rfl
  | cons e rest =>
    obtain ⟨name, kind, optional, sortable, indexed, default⟩ := e
    obtain ⟨hname, hkindPlain, hrestPlain⟩ := hplain
    obtain ⟨_, ⟨_, _, hkind, _⟩, hrest⟩ := hfields
    have hhere : (Place.level root).reach? (segments (namePath dotted name)) =
        if indexed = true then some (.field kind) else none := by
      rw [segments_namePath dotted hname, hreach name,
        Place.step?_level (hall _ List.mem_cons_self)]
      rfl
    have hothers : ∀ e ∈ rest, all.get? e.1 = some e.2 := by
      intro e he
      exact hall e (List.mem_cons_of_mem _ he)
    have hmore := treeFields_entries rest hrest hrestPlain hreach hothers treePath
    rw [treeFields, fieldPaths, List.map_append, List.filterMap_append, hmore]
    refine congrArg (· ++ _) ?_
    -- Both walks stop at a field that is not indexed, with all that is below it.
    cases indexed with
    | false =>
      have hbelow := below_kindPaths kind hkindPlain (namePath dotted name)
      exact (filterMap_refused hhere hbelow .json).symm
    | true => exact treeKind_entries kind hkind hkindPlain hhere sortable _
termination_by structural fields

end

/-! ## Hashes -/

/-- In a hash only fields of its own are accepted. -/
theorem filterMap_below_hash {root : Entries Field} {name : String} {paths : List String}
    (hname : PlainName name) (hbelow : ∀ path ∈ paths, Below name path) :
    paths.filterMap (entryAt? .hash root) = [] := by
  rw [List.filterMap_eq_nil_iff]
  intro path hpath
  obtain ⟨segment, rest, hsegments⟩ := hbelow path hpath
  rw [segments_plain hname] at hsegments
  have hlength : 1 < (segments path).length := by
    rw [hsegments]
    simp
  rw [entryAt?, family?]
  cases (Place.level root).reach? (segments path) with
  | none => rfl
  | some place =>
    rw [Option.bind_some, if_pos ⟨rfl, hlength⟩]
    rfl

/-- The entry of a field of a hash. -/
def entryOf? (e : String × Field) : Option (String × Option String) :=
  if e.2.indexed then
    ((Place.field e.2.kind).family? .hash).map fun family => (e.1, some family.label)
  else none

/-- In a hash a name has the entry of its field. -/
theorem entryAt?_hash {root : Entries Field} {e : String × Field} (hname : PlainName e.1)
    (h : root.get? e.1 = some e.2) : entryAt? .hash root e.1 = entryOf? e := by
  have hlength : ¬ (Storage.hash = .hash ∧ 1 < [e.1].length) := by
    intro hlong
    exact Nat.lt_irrefl 1 hlong.2
  rw [entryAt?, family?, segments_plain hname, Place.reach?_singleton, Place.step?_level h,
    searchName_plain hname, entryOf?]
  cases e.2.indexed with
  | false => rfl
  | true => rw [if_pos rfl, if_pos rfl, Option.bind_some, if_neg hlength]

/-- The index fields of hashes are the entries of the fields at the top. -/
theorem hashFields_topEntries (fields : Entries Field) :
    (hashFields fields).map fieldEntry = fields.filterMap entryOf? := by
  rw [hashFields, List.map_filterMap]
  apply List.filterMap_congr
  intro e _
  rw [entryOf?]
  cases e.2.indexed with
  | false => rfl
  | true =>
    have hhead := congrArg (Option.map fun label => (e.1, label))
      (head?_hashAttributes e.2.sortable e.2.kind)
    rw [Option.map_map, Option.map_map] at hhead
    rw [if_pos rfl, if_pos rfl, Option.map_map]
    exact hhead

/-- The paths that a hash accepts are the names of fields at the top. -/
theorem topEntries_paths {root : Entries Field} {fields : List (String × Field)}
    (hplain : fieldsPlain fields) (hall : ∀ e ∈ fields, root.get? e.1 = some e.2) :
    fields.filterMap entryOf? = (fieldPaths "" fields).filterMap (entryAt? .hash root) := by
  induction fields with
  | nil => rfl
  | cons e rest ih =>
    obtain ⟨name, kind, optional, sortable, indexed, default⟩ := e
    obtain ⟨hname, hkindPlain, hrestPlain⟩ := hplain
    have hhere := entryAt?_hash hname (hall _ List.mem_cons_self)
    have hothers : ∀ e ∈ rest, root.get? e.1 = some e.2 := by
      intro e he
      exact hall e (List.mem_cons_of_mem _ he)
    have hrest := ih hrestPlain hothers
    have hpath : namePath "" name = name := rfl
    have hbelow : (kindPaths name kind).filterMap (entryAt? .hash root) = [] :=
      filterMap_below_hash hname (below_kindPaths kind hkindPlain name)
    rw [fieldPaths, hpath, List.filterMap_append, ← hrest, List.filterMap_cons,
      List.filterMap_cons, hhere, hbelow]
    cases entryOf? (name, Field.mk kind optional sortable indexed default) <;> rfl

/-! ## Both storages -/

/-- The fields of an index are the paths that lead to a searchable field. -/
theorem indexDefinition_entries {schema : Schema} (hschema : schema.Sound)
    (hplain : fieldsPlain schema.fields) (model : String) (settings : Settings) :
    (schema.indexDefinition model settings).fields.map fieldEntry =
      (schemaPaths schema).filterMap (entryAt? settings.storage schema.fields) := by
  have hall : ∀ e ∈ schema.fields, schema.fields.get? e.1 = some e.2 := by
    intro e he
    exact hschema.ordered.distinct.get?_of_mem he
  rw [Schema.indexDefinition, schemaPaths]
  cases settings.storage with
  | hash =>
    show (hashFields schema.fields).map fieldEntry = _
    rw [hashFields_topEntries, topEntries_paths hplain hall]
  | json =>
    have hroot : (Place.level schema.fields).reach? (segments "") =
        some (.level schema.fields) := rfl
    exact treeFields_entries schema.fields hschema.resolved hplain
      (reach?_name hroot fun _ => rfl) hall "$"

end Index

/-- An index has exactly what a search accepts: in the order of the paths of a canonical schema, the
names and families of its fields are those of the clauses that a search adds for the paths. -/
theorem Schema.indexDefinition_fields_eq {s : Query.Search} (hschema : s.schema.IsCanonical)
    (hplain : Index.fieldsPlain s.schema.fields) (model : String) {settings : Settings}
    (hstorage : settings.storage = s.storage) :
    (s.schema.indexDefinition model settings).fields.map
        (fun f => (f.searchName, f.attributes.head?)) =
      (Index.schemaPaths s.schema).filterMap fun path =>
        (s.clause? path).map fun clause =>
          (Query.searchName path, some clause.matcher.family.label) := by
  refine (Index.indexDefinition_entries hschema.sound hplain model settings).trans ?_
  apply List.filterMap_congr
  intro path _
  rw [Index.entryAt?, hstorage, ← Query.Search.clause?_family hschema.sound, Option.map_map]
  rfl

/-! ## A shop -/

/-- An array of objects, an object with a field that is not indexed, a tuple and an array of dates.
-/
def shopDeclarations : Declarations :=
  [("comments", .full { kind := "array" } (some (.fields [("author", .shorthand "string")])) none
      none),
    ("home", .full { kind := "object" } none (some [("city", .shorthand "string"),
      ("code", .full { kind := "string", indexed := some false } none none none)]) none),
    ("pair", .full { kind := "tuple" }
      (some (.positions [.kind "date", .fields [("label", .shorthand "string")]])) none none),
    ("tags", .full { kind := "array" } (some (.kind "date")) none none)]

/-- The schema that a shop is declared with. -/
def shopSchema : Schema where
  fields := [
    ("comments", .mk (.array (.object [("author", .mk (.string ',' false) false false false none)])
      ',') false false false none),
    ("home", .ofKind (.object [("city", .ofKind (.string ',' false)),
      ("code", .mk (.string ',' false) false false false none)])),
    ("pair", .ofKind (.tuple [.scalar .date, .object [("label", .ofKind (.string ',' false))]])),
    ("tags", .ofKind (.array (.scalar .date) ','))]
  references := []
  relations := []
  warnings := [.unsearchableArray "comments"]

/-- The schema of shops comes from its declarations. -/
theorem shopSchema_isCanonical : shopSchema.IsCanonical := by
  refine ⟨shopDeclarations, ⟨by decide, ?_⟩, rfl⟩
  simp +decide [shopDeclarations, declarationsSatisfy, Declaration.Satisfies, declarationsSatisfy?,
    elementsSatisfy?, Elements.Satisfy, positionsSatisfy, Position.Satisfies, Attributes.WellFormed]

/-- All names of a shop can be spelled in paths. -/
theorem shopSchema_plain : Index.fieldsPlain shopSchema.fields := by
  simp only [shopSchema, Field.ofKind, Index.fieldsPlain, Index.kindPlain, Index.elementPlain,
    Index.positionsPlain]
  decide

/-- A search for shops. -/
def shopSearch (storage : Storage) : Query.Search := { schema := shopSchema, storage }

/-- The searchable paths of a shop, in a tree and in a hash. -/
theorem Schema.indexDefinition_fields_eq_shop :
    shopSchema.IsCanonical ∧ Index.fieldsPlain shopSchema.fields ∧
      Index.schemaPaths shopSchema = ["comments", "comments.author", "home", "home.city",
        "home.code", "pair", "pair.0", "pair.1", "pair.1.label", "tags"] ∧
      ((Index.schemaPaths shopSchema).filterMap fun path =>
        ((shopSearch .json).clause? path).map fun clause =>
          (Query.searchName path, some clause.matcher.family.label)) =
        [("home_city", some "TAG"), ("pair_0", some "NUMERIC"), ("pair_1_label", some "TAG"),
          ("tags", some "NUMERIC")] ∧
      ((Index.schemaPaths shopSchema).filterMap fun path =>
        ((shopSearch .hash).clause? path).map fun clause =>
          (Query.searchName path, some clause.matcher.family.label)) =
        [("tags", some "TAG")] := by
  have hpaths (settings : Settings) :=
    Schema.indexDefinition_fields_eq (s := shopSearch settings.storage) shopSchema_isCanonical
      shopSchema_plain "Shop" rfl
  refine ⟨shopSchema_isCanonical, shopSchema_plain, by decide, ?_, ?_⟩
  · exact (hpaths { storage := .json }).symm.trans (by decide)
  · exact (hpaths { storage := .hash }).symm.trans (by decide)

end DocumentSchema
