import DocumentSchema.Proofs.Decimal.Numeral
import DocumentSchema.Proofs.Outcome
import DocumentSchema.Proofs.Schema.Canonical
import DocumentSchema.Proofs.Text.Separated
import DocumentSchema.Query.Search

/-!
# Paths segment by segment

A path put together around a point has the segments of both sides (`segments_point`), and a plain
name or a position is one segment. Whether a path leads anywhere, and where, depends on its segments
alone: `Place.reach?` goes along them and forgets the errors. `Search.clause?_family` says in these
terms which clauses a search accepts.
-/

set_option autoImplicit false

namespace DocumentSchema.Query

/-! ## Segments -/

/-- The names that a path can spell: one segment each, which no wildcard shortens. -/
structure PlainName (name : String) : Prop where
  ne_empty : name ≠ ""
  no_point : '.' ∉ name.toList
  ne_star : name ≠ "*"
  no_wildcard : ¬ wildcard <:+ name.toList

instance (name : String) : Decidable (PlainName name) :=
  decidable_of_iff
    (name ≠ "" ∧ '.' ∉ name.toList ∧ name ≠ "*" ∧ wildcard.isSuffixOf name.toList = false)
    (by
      rw [← Bool.not_eq_true, List.isSuffixOf_iff_suffix]
      exact ⟨fun h => ⟨h.1, h.2.1, h.2.2.1, h.2.2.2⟩, fun h => ⟨h.1, h.2, h.3, h.4⟩⟩)

/-- A plain name is one segment. -/
theorem segments_plain {name : String} (h : PlainName name) : segments name = [name] := by
  have hdrop : dropWildcard name.toList = name.toList := by
    rw [dropWildcard, if_neg fun hsuffix => h.no_wildcard (List.isSuffixOf_iff_suffix.1 hsuffix)]
  have hnil : name.toList ≠ [] := fun hnil => h.ne_empty (String.toList_eq_nil_iff.1 hnil)
  have hstar : name.toList ≠ ['*'] := by
    intro hstar
    refine h.ne_star (String.toList_inj.1 ?_)
    rw [hstar]
    rfl
  rw [segments, Text.cut_of_not_mem h.no_point, List.map_cons, hdrop, List.map_nil,
    List.filter_cons, if_pos (decide_eq_true ⟨hnil, hstar⟩), List.filter_nil,
    List.map_cons, String.ofList_toList, List.map_nil]

/-- Two paths with a point between them have the segments of both. -/
theorem segments_point (above below : String) :
    segments (above ++ "." ++ below) = segments above ++ segments below := by
  have hlist : (above ++ "." ++ below).toList = above.toList ++ '.' :: below.toList := by
    rw [String.toList_append, String.toList_append, List.append_assoc]
    rfl
  rw [segments, hlist, Text.cut_append, List.map_append, List.filter_append, List.map_append]
  rfl

/-- The text of a natural number is a plain name. -/
theorem plainName_natText (n : Nat) : PlainName (Decimal.natText n) := by
  have hdigit : ∀ d : Decimal.Digit, d.toChar ≠ '.' ∧ d.toChar ≠ '*' ∧ d.toChar ≠ ']' := by decide
  have hchar : ∀ c ∈ (Decimal.natText n).toList, c ≠ '.' ∧ c ≠ '*' ∧ c ≠ ']' := by
    intro c hc
    obtain ⟨d, rfl⟩ := Decimal.exists_of_mem_natText hc
    exact hdigit d
  refine ⟨Decimal.natText_ne_empty n, ?_, ?_, ?_⟩
  · intro hmem
    exact (hchar _ hmem).1 rfl
  · intro hstar
    refine (hchar '*' ?_).2.1 rfl
    rw [hstar]
    exact List.mem_singleton_self _
  · intro hsuffix
    refine (hchar ']' (hsuffix.subset ?_)).2.2 rfl
    decide

/-- An index knows a field at the top by its name. -/
theorem searchName_plain {name : String} (h : PlainName name) : searchName name = name := by
  rw [searchName, segments_plain h]
  rfl

/-! ## Places -/

/-- The place that an element of a tuple is. -/
def Place.ofElement : Element → Place
  | .scalar kind => .position kind
  | .object fields => .level fields

/-- The place one segment further, if there is one. -/
def Place.step? (place : Place) (segment : String) : Option Place :=
  (place.descend "" segment).toOption

/-- The place at the end of segments, if they lead to one. -/
def Place.reach? (place : Place) (segments : List String) : Option Place :=
  segments.foldlM Place.step? place

/-- The path that is given with the errors does not choose the place. -/
theorem Place.toOption_descend (path segment : String) (place : Place) :
    (place.descend path segment).toOption = place.step? segment := by
  have hmember : ∀ fields : Entries Field, (Place.member path segment fields).toOption =
      (Place.member "" segment fields).toOption := by
    intro fields
    unfold Place.member
    cases fields.get? segment with
    | none => rfl
    | some found =>
      dsimp only
      cases found.indexed <;> rfl
  cases place with
  | level fields => exact hmember fields
  | position kind => rfl
  | field kind =>
    cases kind with
    | object fields => exact hmember fields
    | tuple positions =>
      rw [Place.step?, Place.descend, Place.descend]
      cases Decimal.readCount? segment.toList with
      | none => rfl
      | some index =>
        dsimp only
        cases positions[index]? with
        | none => rfl
        | some element => cases element <;> rfl
    | _ => rfl

/-- A path is followed exactly where its segments reach. -/
theorem Place.toOption_follow (path : String) (place : Place) (segments : List String) :
    (place.follow path segments).toOption = place.reach? segments := by
  induction segments generalizing place with
  | nil => rfl
  | cons segment rest ih =>
    have hstep := Place.toOption_descend path segment place
    rw [Place.follow, Place.reach?, List.foldlM_cons, List.foldlM_cons, ← hstep]
    cases place.descend path segment with
    | error e => rfl
    | ok next => exact ih next

/-- A path is followed to what its segments reach. -/
theorem Place.follow_of_reach? {place target : Place} {segments : List String}
    (h : place.reach? segments = some target) (path : String) :
    place.follow path segments = .ok target := by
  rw [← Place.toOption_follow path] at h
  cases hresult : place.follow path segments with
  | error e =>
    rw [hresult] at h
    cases h
  | ok result =>
    rw [hresult] at h
    rw [Option.some.inj h]

/-- Segments reach on from where those before them reach. -/
theorem Place.reach?_append (place : Place) (front rest : List String) :
    place.reach? (front ++ rest) = (place.reach? front).bind fun next => next.reach? rest :=
  List.foldlM_append ..

/-- One segment reaches as far as one step. -/
theorem Place.reach?_singleton (place : Place) (segment : String) :
    place.reach? [segment] = place.step? segment := by
  rw [Place.reach?, List.foldlM_cons]
  cases place.step? segment <;> rfl

/-- Where a path leads nowhere, no longer path leads anywhere. -/
theorem Place.reach?_append_none {place : Place} {front : List String}
    (h : place.reach? front = none) (rest : List String) :
    place.reach? (front ++ rest) = none := by
  rw [Place.reach?_append, h, Option.bind_none]

/-- A step at a level leads to a field of that name exactly if it is indexed. -/
theorem Place.step?_level {fields : Entries Field} {name : String} {found : Field}
    (h : fields.get? name = some found) :
    (Place.level fields).step? name =
      if found.indexed then some (.field found.kind) else none := by
  rw [Place.step?, Place.descend, Place.member, h]
  cases hindexed : found.indexed <;> simp only [hindexed] <;> rfl

/-- Only names of fields lead further from a level. -/
theorem Place.contains_of_step?_level {fields : Entries Field} {name : String} {next : Place}
    (h : (Place.level fields).step? name = some next) : fields.contains name = true := by
  rw [Place.step?, Place.descend, Place.member] at h
  cases hget : fields.get? name with
  | none =>
    rw [hget] at h
    cases h
  | some found => rw [Entries.contains, hget, Option.isSome_some]

/-- The text of an index leads to the position of a tuple there. -/
theorem Place.step?_tuple {positions : List Element} {index : Nat} {element : Element}
    (hcount : positions.length < countLimit) (h : positions[index]? = some element) :
    (Place.field (.tuple positions)).step? (Decimal.natText index) =
      some (Place.ofElement element) := by
  have hindex : index < 18446744073709551616 := by
    obtain ⟨hlt, _⟩ := List.getElem?_eq_some_iff.1 h
    exact Nat.lt_trans hlt hcount
  rw [Place.step?, Place.descend, Decimal.readCount?_natText hindex]
  dsimp only
  rw [h]
  cases element <;> rfl

/-! ## Clauses -/

/-- The family of the clauses at a place, if it can be searched. -/
def Place.family? (storage : Storage) (place : Place) : Option Family :=
  (place.matcher "" storage).toOption.map fun found => found.2.family

/-- Whether a place has a matcher does not depend on the path to it. -/
theorem Place.toOption_matcher (path : String) (storage : Storage) (place : Place) :
    (place.matcher path storage).toOption = (place.matcher "" storage).toOption := by
  cases place with
  | level fields => rfl
  | position kind => rfl
  | field kind =>
    rw [Place.matcher, Place.matcher]
    cases Matcher.ofKind? storage kind <;> rfl

/-- The family of the field that a path leads to from the fields of a schema, if it can be searched;
a hash has no fields below its own. -/
def family? (storage : Storage) (fields : Entries Field) (path : String) : Option Family :=
  ((Place.level fields).reach? (segments path)).bind fun place =>
    if storage = .hash ∧ 1 < (segments path).length then none else place.family? storage

/-- A path that reaches a place does not begin with a link. -/
theorem not_link_of_reach? {schema : Schema} (hschema : schema.Sound) {first : String}
    {others : List String} {place : Place}
    (h : (Place.level schema.fields).reach? (first :: others) = some place) :
    schema.references.contains first = false ∧ schema.relations.contains first = false := by
  have hcons : first :: others = [first] ++ others := rfl
  rw [hcons, Place.reach?_append, Place.reach?_singleton] at h
  obtain ⟨next, hnext, _⟩ := Option.bind_eq_some_iff.1 h
  exact hschema.apart first (Place.contains_of_step?_level hnext)

/-- Resolving finds the family that the segments of a path lead to. -/
theorem resolve_family {schema : Schema} (hschema : schema.Sound) (storage : Storage)
    (path : String) :
    (resolve schema storage path).toOption.map (fun found => found.2.family) =
      family? storage schema.fields path := by
  rw [resolve, family?]
  cases hsegments : segments path with
  | nil =>
    show none = Option.bind (some (Place.level schema.fields)) _
    rw [Option.bind_some]
    cases storage <;> rfl
  | cons first others =>
    dsimp only
    cases hreach : (Place.level schema.fields).reach? (first :: others) with
    | none =>
      rw [← Place.toOption_follow path] at hreach
      cases hplace : Place.follow path (.level schema.fields) (first :: others) with
      | ok place =>
        rw [hplace] at hreach
        cases hreach
      | error e =>
        cases schema.references.contains first <;> cases schema.relations.contains first <;> rfl
    | some place =>
      obtain ⟨hreference, hrelation⟩ := not_link_of_reach? hschema hreach
      rw [hreference, hrelation, Place.follow_of_reach? hreach path, Option.bind_some,
        if_neg Bool.false_ne_true, if_neg Bool.false_ne_true, Outcome.ok_bind]
      have hnested : storage = .hash ∧ 1 < (first :: others).length ↔
          storage = .hash ∧ others ≠ [] := by
        cases others <;> simp
      by_cases h : storage = .hash ∧ others ≠ []
      · rw [if_pos h, if_pos (hnested.2 h)]
        rfl
      · rw [if_neg h, if_neg fun h' => h (hnested.1 h'), Place.toOption_matcher, Place.family?]

/-- The clause that a search adds for a path, if it accepts the path. -/
def Search.clause? (s : Search) (path : String) : Option Clause :=
  (s.addClause path).toOption.bind fun next => next.clauses.getLast?

/-- A search accepts the paths that lead to a searchable field, and its clause is of the family of
the field. -/
theorem Search.clause?_family {s : Search} (hschema : s.schema.Sound) (path : String) :
    (s.clause? path).map (fun clause => clause.matcher.family) =
      Query.family? s.storage s.schema.fields path := by
  rw [← resolve_family hschema, Search.clause?, Search.addClause]
  cases resolve s.schema s.storage path with
  | error e => rfl
  | ok found =>
    show Option.map _ (List.getLast? (s.clauses ++ [_])) = _
    rw [List.getLast?_append]
    rfl

end DocumentSchema.Query
