import DocumentSchema.Codec.Tree
import DocumentSchema.Proofs.Codec.Admission
import DocumentSchema.Proofs.Coordinates
import DocumentSchema.Proofs.Decimal.Numeral
import DocumentSchema.Proofs.Schema.Canonical
import DocumentSchema.Proofs.Time
import DocumentSchema.Proofs.Value.Same

/-!
# Documents read back from their trees

A document conforms to a schema if its values are of the types that reading gives, no array has a
null, what no field describes is plain, and no field with a default is left out. Writing such a
document as a tree and reading the tree gives the document with nulls for the fields it leaves out
(`fillKind`). The proof is one recursion on kinds, in which reading undoes writing at every kind.
-/

set_option autoImplicit false

namespace DocumentSchema.Tree

open Outcome

mutual

/-- A value that reading a field of a kind can give. -/
def kindConforms : Kind → Value → Prop
  | .array element _, v =>
    v = .null ∨ ∃ vs, v = .array vs ∧ ∀ w ∈ vs, w ≠ .null ∧ elementConforms element w
  | .tuple positions, v => v = .null ∨ ∃ vs, v = .array vs ∧ positionsConform positions vs
  | .object fields, v =>
    v = .null ∨ ∃ doc, v = .object doc ∧ Entries.Ordered doc ∧
      Value.membersPlain (undescribed fields doc) ∧ fieldsConform fields doc
  | kind, v => v = .null ∨ kind.DecodesTo v
termination_by structural kind => kind

/-- A value that reading an element can give; an object is never null. -/
def elementConforms : Element → Value → Prop
  | .scalar kind, v => v = .null ∨ (Kind.ofScalar kind).DecodesTo v
  | .object fields, v =>
    ∃ doc, v = .object doc ∧ Entries.Ordered doc ∧
      Value.membersPlain (undescribed fields doc) ∧ fieldsConform fields doc
termination_by structural element => element

/-- Values that reading the positions of a tuple can give. -/
def positionsConform : List Element → List Value → Prop
  | element :: elements, v :: vs => elementConforms element v ∧ positionsConform elements vs
  | _, _ => True
termination_by structural elements => elements

/-- Every field has a value that reading it can give, or neither a value nor a default. -/
def fieldsConform : List (String × Field) → Document → Prop
  | [], _ => True
  | (name, .mk kind _ _ _ default) :: rest, doc =>
    (match doc.get? name with
      | some v => kindConforms kind v
      | none => default = none) ∧ fieldsConform rest doc
termination_by structural fields => fields

end

mutual

/-- The value of a field of a kind with nulls for the fields that its objects leave out. -/
def fillKind : Kind → Value → Value
  | .array element _, .array vs => .array (vs.map fun w => fillElement element w)
  | .tuple positions, .array vs => .array (fillPositions positions vs)
  | .object fields, .object doc =>
    .object (Entries.insertAll (fillFields fields doc) (undescribed fields doc))
  | _, v => v
termination_by structural kind => kind

/-- An element with nulls for the fields that its objects leave out. -/
def fillElement : Element → Value → Value
  | .object fields, .object doc =>
    .object (Entries.insertAll (fillFields fields doc) (undescribed fields doc))
  | _, v => v
termination_by structural element => element

/-- The positions of a tuple with nulls for the fields that their objects leave out. -/
def fillPositions : List Element → List Value → List Value
  | element :: elements, v :: vs => fillElement element v :: fillPositions elements vs
  | _, vs => vs
termination_by structural elements => elements

/-- All fields of a level, with a null for each that a document leaves out. -/
def fillFields : List (String × Field) → Document → Document
  | [], _ => []
  | (name, .mk kind _ _ _ _) :: rest, doc =>
    (name, match doc.get? name with
      | some v => fillKind kind v
      | none => .null) :: fillFields rest doc
termination_by structural fields => fields

end

/-! ## Leaves -/

/-- Finite numbers are read back from a tree one by one. -/
theorem mapM_decodeNumber (path : String) (xs : List Finite64) :
    (xs.map numberTree).mapM (decodeNumber path) =
      .ok (xs.map fun x => .number (.finite x)) := by
  induction xs with
  | nil => rfl
  | cons x xs ih =>
    rw [List.map_cons, List.mapM_cons, ih]
    rfl

/-- An array without nulls has its items. -/
theorem nonNullItems_eq {path : String} {expected : KindName} {jsons : List Json}
    (h : ∀ json ∈ jsons, json.isNull = false) :
    nonNullItems path expected (.array jsons) = .ok jsons := by
  rw [nonNullItems, List.findIdx?_eq_none_iff.2 h]

/-- An instant of whole milliseconds is read back from a tree. -/
theorem decodeDate_ofInstant {t : Instant} (hleap : t.nanos < Instant.nanosPerSecond)
    (hwhole : t.nanos % Instant.nanosPerMilli = 0) (path : String) :
    decodeDate path (.ofInstant t) = .ok (.date t) := by
  have hread : (Json.ofInstant t).toBinary?.bind instantOfMillis? = some t := by
    show instantOfMillis? (Floating.ofInt .binary64 t.millis) = some t
    rw [instantOfMillis?_millis, Instant.ofMillis?_millis hleap hwhole]
  rw [decodeDate, hread]

/-- A valid point is read back from its text. -/
theorem decodePoint_text {p : Coordinates} (h : p.isValid = true) (path : String) :
    decodePoint path (.string p.text) = .ok (.point p) := by
  have hread : (Json.string p.text).toText?.bind Coordinates.read? = some p :=
    Coordinates.read?_text_of_isValid h
  rw [decodePoint, hread]

/-- The components of a vector are read back from a tree. -/
theorem decodeKind_vector (path : String) (options : VectorOptions) (xs : List Finite64) :
    decodeKind path (.vector options) (.array (xs.map numberTree)) =
      .ok (.array (xs.map fun x => .number (.finite x))) := by
  have hnull : ∀ json ∈ xs.map numberTree, json.isNull = false := by
    intro json hjson
    obtain ⟨x, _, rfl⟩ := List.mem_map.1 hjson
    rfl
  show (nonNullItems path .vector (.array (xs.map numberTree)) >>= fun items =>
    items.mapM (decodeNumber path) >>= fun vs => pure (Value.array vs)) = _
  rw [nonNullItems_eq hnull, ok_bind, mapM_decodeNumber, ok_bind]
  rfl

/-- A value of a leaf field is read back from its tree, and equals itself. -/
theorem decodeKind_leaf {kind : Kind} {v : Value} (h : kind.DecodesTo v) {path : String}
    {json : Json} (hwrite : encodeKind path kind v = .ok json) (below : String) :
    decodeKind below kind json = .ok v ∧ v.same v = true := by
  cases kind with
  | string separator caseSensitive =>
    obtain ⟨s, rfl⟩ := h
    obtain rfl := Except.ok.inj hwrite
    exact ⟨rfl, decide_eq_true rfl⟩
  | text weight phonetic =>
    obtain ⟨s, rfl⟩ := h
    obtain rfl := Except.ok.inj hwrite
    exact ⟨rfl, decide_eq_true rfl⟩
  | number literals =>
    obtain ⟨x, rfl⟩ := h
    obtain ⟨y, hy, rfl⟩ := map_eq_ok.1 hwrite
    obtain rfl := Admission.number_eq_ok hy
    exact ⟨rfl, Value.same_number y⟩
  | bigInt literals =>
    obtain ⟨i, rfl⟩ := h
    obtain ⟨j, hj, rfl⟩ := map_eq_ok.1 hwrite
    obtain rfl := Admission.bigInt_eq_ok hj
    refine ⟨?_, decide_eq_true rfl⟩
    show decodeBigInt below (.string i.text) = _
    rw [decodeBigInt, Json.toInt128?, Int128.read_text]
  | boolean =>
    obtain ⟨b, rfl⟩ := h
    obtain rfl := Except.ok.inj hwrite
    exact ⟨rfl, decide_eq_true rfl⟩
  | date =>
    obtain ⟨t, rfl, hleap, hwhole⟩ := h
    obtain rfl := Except.ok.inj hwrite
    exact ⟨decodeDate_ofInstant hleap hwhole below, decide_eq_true rfl⟩
  | point =>
    obtain ⟨p, rfl⟩ := h
    obtain ⟨q, hq, rfl⟩ := map_eq_ok.1 hwrite
    obtain ⟨rfl, hvalid⟩ := Admission.point_eq_ok hq
    exact ⟨decodePoint_text hvalid below, Value.same_point hvalid⟩
  | vector options =>
    obtain ⟨vs, rfl, _⟩ := h
    obtain ⟨xs, hxs, hwrite⟩ := bind_eq_ok.1 hwrite
    obtain rfl := pure_eq_ok.1 hwrite
    obtain rfl := Admission.vector_eq_ok hxs
    refine ⟨decodeKind_vector below options xs, ?_⟩
    apply Value.sameItems_self
    intro v hv
    obtain ⟨x, _, rfl⟩ := List.mem_map.1 hv
    exact Value.same_number x
  | array element separator => exact absurd h id
  | tuple positions => exact absurd h id
  | object fields => exact absurd h id

/-- An element of a kind of scalar is written as a field of that kind. -/
theorem encodeScalar_eq (path : String) (kind : Scalar) (v : Value) :
    encodeScalar path kind v = encodeKind path (Kind.ofScalar kind) v := by
  cases kind <;> rfl

/-- An element of a kind of scalar is read as a field of that kind. -/
theorem decodeScalar_eq (path : String) (kind : Scalar) (json : Json) :
    decodeScalar path kind json = decodeKind path (Kind.ofScalar kind) json := by
  cases kind <;> rfl

/-! ## Items and levels -/

/-- Filling an element does not make it null. -/
theorem fillElement_ne_null {element : Element} {v : Value} (h : v ≠ .null) :
    fillElement element v ≠ .null := by
  cases element with
  | scalar kind => exact h
  | object fields => cases v <;> first | exact absurd rfl h | rintro ⟨⟩

/-- What is read as something other than null was not null. -/
theorem isNull_of_decodeElement {path : String} {element : Element} {json : Json} {v : Value}
    (h : decodeElement path element json = .ok v) (hv : v ≠ .null) : json.isNull = false := by
  cases json with
  | null =>
    cases element with
    | scalar kind => exact absurd (Except.ok.inj h).symm hv
    | object fields => cases h
  | _ => rfl

/-- Reading undoes writing at the items of an array, none of which is written as null. -/
theorem decodeItems_encodeItems {write : String → Value → Except EncodeError Json}
    {read : String → Json → Except DecodeError Value} {fill : Value → Value} {vs : List Value}
    (h : ∀ v ∈ vs, ∀ path json, write path v = .ok json →
      json.isNull = false ∧ (fill v).same (fill v) = true ∧ ∀ below, read below json = .ok (fill v))
    {path : String} {index : Nat} {jsons : List Json}
    (hwrite : encodeItems path write index vs = .ok jsons) (below : String) (index' : Nat) :
    (∀ json ∈ jsons, json.isNull = false) ∧ (∀ w ∈ vs.map fill, w.same w = true) ∧
      decodeItems below read index' jsons = .ok (vs.map fill) := by
  induction vs generalizing index index' jsons with
  | nil =>
    obtain rfl := Except.ok.inj hwrite
    exact ⟨by simp, by simp, rfl⟩
  | cons v vs ih =>
    obtain ⟨hv, hvs⟩ := List.forall_mem_cons.1 h
    obtain ⟨json, hjson, hwrite⟩ := bind_eq_ok.1 hwrite
    obtain ⟨rest, hrest, hwrite⟩ := bind_eq_ok.1 hwrite
    obtain rfl := pure_eq_ok.1 hwrite
    obtain ⟨hnull, hsame, hread⟩ := hv _ _ hjson
    obtain ⟨hnulls, hsames, hreads⟩ := ih hvs hrest (index' + 1)
    refine ⟨List.forall_mem_cons.2 ⟨hnull, hnulls⟩, List.forall_mem_cons.2 ⟨hsame, hsames⟩, ?_⟩
    rw [decodeItems, hread, ok_bind, hreads]
    rfl

/-- Reading undoes writing at a level if it does so at the fields. -/
theorem decodeMembers_encodeMembers {fields : Entries Field} (hfields : fields.Ordered)
    {doc filled : Document} (hdoc : Entries.Ordered doc) {skip : String → Bool}
    (hplain : Value.membersPlain ((undescribed fields doc).filter fun e => !skip e.1))
    {write : Document → Except EncodeError (Entries Json)}
    {read : Entries Json → Except DecodeError Document}
    (h : ∀ inside, write doc = .ok inside → inside.keys.Sublist fields.keys ∧
      ∀ members, Agree fields members inside → read members = .ok filled)
    {members : Entries Json} (hwrite : encodeMembers fields skip write doc = .ok members) :
    decodeMembers fields skip read members =
      .ok (Entries.insertAll filled ((undescribed fields doc).filter fun e => !skip e.1)) := by
  obtain ⟨inside, hinside, hwrite⟩ := bind_eq_ok.1 hwrite
  obtain rfl := pure_eq_ok.1 hwrite
  obtain ⟨hkeys, hread⟩ := h inside hinside
  have hlevel : Level fields inside
      (Value.membersToJson ((undescribed fields doc).filter fun e => !skip e.1)) := by
    rw [Value.membersToJson_eq]
    refine ⟨hfields, hkeys, ((ordered_undescribed hdoc fields).filter _).mapValues _, ?_⟩
    intro e he
    obtain ⟨d, hd, rfl⟩ := List.mem_map.1 he
    exact (mem_undescribed.1 (List.mem_of_mem_filter hd)).2
  have hothers : List.filter (fun e => !skip e.1)
      (Value.membersToJson ((undescribed fields doc).filter fun e => !skip e.1)) =
        Value.membersToJson ((undescribed fields doc).filter fun e => !skip e.1) := by
    rw [Value.membersToJson_eq, List.filter_eq_self]
    intro e he
    obtain ⟨d, hd, rfl⟩ := List.mem_map.1 he
    exact (List.mem_filter.1 hd).2
  rw [decodeMembers, hread _ hlevel.agree, ok_bind, hlevel.undescribed_eq]
  dsimp only
  rw [hothers, Value.membersOfJson_membersToJson _ hplain]
  rfl

/-- Inside a document nothing is skipped. -/
theorem filter_skipNone (entries : Document) :
    (entries.filter fun e => !skipNone e.1) = entries :=
  List.filter_eq_self.2 fun _ _ => rfl

/-- A filled level has the keys of its fields. -/
theorem keys_fillFields (fields : Entries Field) (doc : Document) :
    (fillFields fields doc).keys = fields.keys := by
  induction fields with
  | nil => rfl
  | cons first rest ih =>
    obtain ⟨name, kind, optional, sortable, indexed, default⟩ := first
    exact congrArg (name :: ·) ih

/-- The values of a filled level are those of the fields and those that no field describes. -/
theorem mem_insertAll_fillFields {fields : Entries Field} (hfields : fields.Ordered)
    {doc others : Document} (hothers : Entries.Ordered others) {e : String × Value}
    (he : e ∈ Entries.insertAll (fillFields fields doc) others) :
    e ∈ fillFields fields doc ∨ e ∈ others := by
  have hfilled : Entries.Ordered (fillFields fields doc) :=
    hfields.of_keys_eq (keys_fillFields fields doc)
  have hget := (hfilled.insertAll others).distinct.get?_of_mem he
  rw [Entries.get?_insertAll _ hothers.distinct, Option.or_eq_some_iff] at hget
  rcases hget with hother | ⟨_, hfield⟩
  · exact Or.inr (Entries.mem_of_get? hother)
  · exact Or.inl (Entries.mem_of_get? hfield)

/-! ## Every depth -/

/-- Equality holds between a filled level and itself if it does between the values of the fields. -/
theorem same_level {fields : Entries Field} (hfields : fields.Ordered) {doc : Document}
    (hsame : ∀ e ∈ fillFields fields doc, e.2.same e.2 = true) {others : Document}
    (hothers : Entries.Ordered others) (hplain : Value.membersPlain others) :
    Value.sameMembers (Entries.insertAll (fillFields fields doc) others)
      (Entries.insertAll (fillFields fields doc) others) = true := by
  refine Value.sameMembers_self fun e he => ?_
  rcases mem_insertAll_fillFields hfields hothers he with he | he
  · exact hsame e he
  · exact Value.same_of_plain e.2 (Value.membersPlain_iff.1 hplain e he)

/-- Reading undoes writing at an object if it does so at its fields. -/
theorem decodeMembers_encodeLevel {fields : Entries Field} (hfields : fields.Ordered) {doc : Document}
    (hdoc : Entries.Ordered doc) (hplain : Value.membersPlain (undescribed fields doc)) {path : String}
    (h : ∀ inside, encodeFields path fields doc = .ok inside →
      inside.keys.Sublist fields.keys ∧ (∀ e ∈ fillFields fields doc, e.2.same e.2 = true) ∧
        ∀ below members, Agree fields members inside →
          decodeFields below fields members = .ok (fillFields fields doc))
    {members : Entries Json}
    (hwrite : encodeMembers fields skipNone (fun doc => encodeFields path fields doc) doc =
      .ok members) (below : String) :
    decodeMembers fields skipNone (fun members => decodeFields below fields members) members =
        .ok (Entries.insertAll (fillFields fields doc) (undescribed fields doc)) ∧
      Value.sameMembers (Entries.insertAll (fillFields fields doc) (undescribed fields doc))
        (Entries.insertAll (fillFields fields doc) (undescribed fields doc)) = true := by
  obtain ⟨inside, hinside, _⟩ := bind_eq_ok.1 hwrite
  obtain ⟨_, hsame, _⟩ := h inside hinside
  refine ⟨?_, same_level hfields hsame (ordered_undescribed hdoc fields) hplain⟩
  have hread := decodeMembers_encodeMembers hfields hdoc (by rw [filter_skipNone]; exact hplain)
    (fun inside hinside => ⟨(h inside hinside).1, (h inside hinside).2.2 below⟩) hwrite
  rw [filter_skipNone] at hread
  exact hread

mutual

/-- Reading undoes writing at every kind, and what is read equals itself. -/
theorem decodeKind_encodeKind (kind : Kind) {indexed : Bool} (hkind : kind.Resolved indexed)
    {v : Value} (hv : kindConforms kind v) {path : String} {json : Json}
    (hwrite : encodeKind path kind v = .ok json) (below : String) :
    decodeKind below kind json = .ok (fillKind kind v) ∧
      (fillKind kind v).same (fillKind kind v) = true := by
  cases kind with
  | array element separator =>
    rcases hv with rfl | ⟨vs, rfl, hvs⟩
    · obtain rfl := Except.ok.inj hwrite
      exact ⟨rfl, rfl⟩
    · obtain ⟨ws, hws, hwrite⟩ := bind_eq_ok.1 hwrite
      obtain rfl := Admission.items_eq_ok hws
      obtain ⟨jsons, hjsons, hwrite⟩ := bind_eq_ok.1 hwrite
      obtain rfl := pure_eq_ok.1 hwrite
      -- an item that is not null is not written as null, so the reader refuses none of them
      have hitem : ∀ w ∈ vs, ∀ path json, encodeElement path element w = .ok json →
          json.isNull = false ∧ (fillElement element w).same (fillElement element w) = true ∧
            ∀ below, decodeElement below element json = .ok (fillElement element w) := by
        intro w hw path json hjson
        obtain ⟨hnull, hconforms⟩ := hvs w hw
        have hread := decodeElement_encodeElement element hkind.2 hconforms hjson
        exact ⟨isNull_of_decodeElement (hread path).1 (fillElement_ne_null hnull), (hread path).2,
          fun below => (hread below).1⟩
      obtain ⟨hnulls, hsame, hread⟩ := decodeItems_encodeItems hitem hjsons below 0
      refine ⟨?_, Value.sameItems_self hsame⟩
      show (nonNullItems below .array (.array jsons) >>= fun items =>
        decodeItems below (fun path json => decodeElement path element json) 0 items >>= fun vs =>
          pure (Value.array vs)) = _
      rw [nonNullItems_eq hnulls, ok_bind, hread]
      rfl
  | tuple positions =>
    rcases hv with rfl | ⟨vs, rfl, hvs⟩
    · obtain rfl := Except.ok.inj hwrite
      exact ⟨rfl, rfl⟩
    · obtain ⟨ws, hws, hwrite⟩ := bind_eq_ok.1 hwrite
      obtain rfl := Admission.items_eq_ok hws
      split at hwrite
      · cases hwrite
      · rename_i hlength
        obtain ⟨jsons, hjsons, hwrite⟩ := bind_eq_ok.1 hwrite
        obtain rfl := pure_eq_ok.1 hwrite
        -- a null at a position stands for it, so the reader counts as many items
        obtain ⟨hcount, hread, hsame⟩ := decodePositions_encodePositions positions hkind.2.2 hvs
          (Decidable.not_not.1 hlength) hjsons below 0
        refine ⟨?_, Value.sameItems_self hsame⟩
        show (if jsons.length ≠ positions.length then _
          else decodePositions below 0 positions jsons >>= fun vs => pure (Value.array vs)) = _
        rw [if_neg (not_not.2 hcount), hread]
        rfl
  | object fields =>
    rcases hv with rfl | ⟨doc, rfl, hdoc, hplain, hconforms⟩
    · obtain rfl := Except.ok.inj hwrite
      exact ⟨rfl, rfl⟩
    · obtain ⟨members, hmembers, rfl⟩ := map_eq_ok.1 hwrite
      obtain ⟨hread, hsame⟩ := decodeMembers_encodeLevel hkind.1 hdoc hplain
        (fun inside => decodeFields_encodeFields fields hkind.2 hkind.1 hconforms) hmembers below
      refine ⟨?_, hsame⟩
      show (decodeMembers fields skipNone (fun members => decodeFields below fields members)
        members).map Value.object = _
      rw [hread]
      rfl
  | _ =>
    rcases hv with rfl | hv
    · obtain rfl := Except.ok.inj hwrite
      exact ⟨rfl, rfl⟩
    · exact decodeKind_leaf hv hwrite below
termination_by structural kind

/-- An element is read back from its tree, filled, and equals itself. -/
theorem decodeElement_encodeElement (element : Element) {indexed : Bool}
    (helement : element.Resolved indexed) {v : Value} (hv : elementConforms element v)
    {path : String} {json : Json} (hwrite : encodeElement path element v = .ok json)
    (below : String) :
    decodeElement below element json = .ok (fillElement element v) ∧
      (fillElement element v).same (fillElement element v) = true := by
  cases element with
  | scalar kind =>
    rw [encodeElement, encodeScalar_eq] at hwrite
    rw [decodeElement, decodeScalar_eq]
    rcases hv with rfl | hv
    · have hnull : encodeKind path (Kind.ofScalar kind) .null = .ok .null := by cases kind <;> rfl
      rw [hnull] at hwrite
      obtain rfl := Except.ok.inj hwrite
      exact ⟨by cases kind <;> rfl, rfl⟩
    · exact decodeKind_leaf hv hwrite below
  | object fields =>
    obtain ⟨doc, rfl, hdoc, hplain, hconforms⟩ := hv
    obtain ⟨members, hmembers, rfl⟩ := map_eq_ok.1 hwrite
    obtain ⟨hread, hsame⟩ := decodeMembers_encodeLevel helement.1 hdoc hplain
      (fun inside => decodeFields_encodeFields fields helement.2 helement.1 hconforms) hmembers below
    refine ⟨?_, hsame⟩
    show (decodeMembers fields skipNone (fun members => decodeFields below fields members)
      members).map Value.object = _
    rw [hread]
    rfl
termination_by structural element

/-- Reading undoes writing at the positions of a tuple. -/
theorem decodePositions_encodePositions (positions : List Element) {indexed : Bool}
    (hpositions : positionsResolved indexed positions) {vs : List Value}
    (hvs : positionsConform positions vs) (hlength : vs.length = positions.length) {path : String}
    {index : Nat} {jsons : List Json}
    (hwrite : encodePositions path index positions vs = .ok jsons) (below : String) (index' : Nat) :
    jsons.length = positions.length ∧
      decodePositions below index' positions jsons = .ok (fillPositions positions vs) ∧
      ∀ w ∈ fillPositions positions vs, w.same w = true := by
  cases positions with
  | nil =>
    obtain rfl := List.length_eq_zero_iff.1 hlength
    obtain rfl := Except.ok.inj hwrite
    exact ⟨rfl, rfl, by simp [fillPositions]⟩
  | cons element elements =>
    cases vs with
    | nil => cases hlength
    | cons v vs =>
      obtain ⟨json, hjson, hwrite⟩ := bind_eq_ok.1 hwrite
      obtain ⟨rest, hrest, hwrite⟩ := bind_eq_ok.1 hwrite
      obtain rfl := pure_eq_ok.1 hwrite
      obtain ⟨hread, hsame⟩ :=
        decodeElement_encodeElement element hpositions.1 hvs.1 hjson (itemPath below index')
      obtain ⟨hcount, hreads, hsames⟩ := decodePositions_encodePositions elements hpositions.2 hvs.2
        (Nat.succ.inj hlength) hrest below (index' + 1)
      refine ⟨congrArg Nat.succ hcount, ?_, List.forall_mem_cons.2 ⟨hsame, hsames⟩⟩
      rw [decodePositions, hread, ok_bind, hreads]
      rfl
termination_by structural positions

/-- Reading undoes writing at the fields of a level. -/
theorem decodeFields_encodeFields (fields : List (String × Field)) {indexed : Bool}
    (hfields : fieldsResolved indexed fields) (hordered : Entries.Ordered fields) {doc : Document}
    (hdoc : fieldsConform fields doc) {path : String} {inside : Entries Json}
    (hwrite : encodeFields path fields doc = .ok inside) :
    inside.keys.Sublist (Entries.keys fields) ∧
      (∀ e ∈ fillFields fields doc, e.2.same e.2 = true) ∧
      ∀ below members, Agree fields members inside →
        decodeFields below fields members = .ok (fillFields fields doc) := by
  cases fields with
  | nil =>
    obtain rfl := Except.ok.inj hwrite
    exact ⟨List.Sublist.refl _, by simp [fillFields], fun _ _ _ => rfl⟩
  | cons first rest =>
    obtain ⟨name, kind, optional, sortable, isIndexed, default⟩ := first
    obtain ⟨_, ⟨_, _, hkind, _⟩, hrest⟩ := hfields
    obtain ⟨hvalue, hothers⟩ := hdoc
    rw [encodeFields, effective] at hwrite
    rw [fillFields]
    cases hget : doc.get? name with
    | none =>
      rw [hget] at hvalue hwrite
      obtain rfl := hvalue
      obtain ⟨hkeys, hsame, hread⟩ := decodeFields_encodeFields rest hrest hordered.tail hothers hwrite
      refine ⟨hkeys.cons name, List.forall_mem_cons.2 ⟨rfl, hsame⟩, ?_⟩
      intro below members hagree
      obtain ⟨habsent, hagree⟩ := hagree.absent hordered hkeys
      rw [decodeFields, habsent]
      dsimp only
      rw [hread below members hagree]
      rfl
    | some v =>
      rw [hget] at hvalue hwrite
      obtain ⟨json, hjson, hwrite⟩ := bind_eq_ok.1 hwrite
      obtain ⟨jsons, hjsons, hwrite⟩ := bind_eq_ok.1 hwrite
      obtain rfl := pure_eq_ok.1 hwrite
      obtain ⟨hkeys, hsame, hread⟩ := decodeFields_encodeFields rest hrest hordered.tail hothers hjsons
      have hkindRead := decodeKind_encodeKind kind hkind hvalue hjson
      refine ⟨hkeys.cons_cons name, List.forall_mem_cons.2 ⟨(hkindRead name).2, hsame⟩, ?_⟩
      intro below members hagree
      obtain ⟨hpresent, hagree⟩ := hagree.present hordered
      rw [decodeFields, hpresent]
      dsimp only
      rw [(hkindRead _).1, ok_bind, hread below members hagree]
      rfl
termination_by structural fields

end

/-! ## Documents -/

/-- A document that reading a tree can give, except that it may leave out fields without a default
and may have anything at the names of links. -/
structure Conforms (schema : Schema) (doc : Document) : Prop where
  ordered : Entries.Ordered doc
  fields : fieldsConform schema.fields doc
  others : Value.membersPlain ((undescribed schema.fields doc).filter fun e => !schema.isLink e.1)

/-- A document without the entries at links, and with a null for each field that an object in it
leaves out. -/
def filled (schema : Schema) (doc : Document) : Document :=
  Entries.insertAll (fillFields schema.fields doc)
    ((undescribed schema.fields doc).filter fun e => !schema.isLink e.1)

/-- Filling goes on inside the value of each field, which is null where it is missing. -/
theorem get?_fillFields (fields : Entries Field) (doc : Document) (name : String) :
    Entries.get? (fillFields fields doc) name = (fields.get? name).map fun field =>
      match doc.get? name with
      | some v => fillKind field.kind v
      | none => .null := by
  induction fields with
  | nil => rfl
  | cons first rest ih =>
    obtain ⟨key, kind, optional, sortable, indexed, default⟩ := first
    rw [fillFields, Entries.get?, Entries.get?]
    split
    · rename_i hkey
      rw [hkey]
      rfl
    · exact ih

/-- What a filled document has at a name: the value of a field or a null, nothing at a link, and
otherwise what the document has there. -/
theorem get?_filled {schema : Schema} {doc : Document} (hdoc : Entries.Ordered doc) (name : String) :
    (filled schema doc).get? name =
      match schema.fields.get? name with
      | some field =>
        match doc.get? name with
        | some v => some (fillKind field.kind v)
        | none => some .null
      | none => if schema.isLink name then none else doc.get? name := by
  rw [filled, Entries.get?_insertAll _ ((ordered_undescribed hdoc schema.fields).filter _).distinct,
    Entries.get?_filter fun key => !schema.isLink key, get?_undescribed, get?_fillFields,
    Entries.contains]
  cases schema.fields.get? name with
  | none =>
    cases schema.isLink name with
    | true => rfl
    | false => simp
  | some field => cases doc.get? name <;> simp

end DocumentSchema.Tree

namespace DocumentSchema

/-- A document that conforms to a canonical schema, written as a tree and read again, is the
document without links and with nulls for the fields left out at any level; and it equals itself,
since it has no NaN. -/
theorem Schema.decodeTree_encodeTree {schema : Schema} (hschema : schema.IsCanonical) {doc : Document}
    (hdoc : Tree.Conforms schema doc) {json : Json} (hwrite : schema.encodeTree doc = .ok json) :
    schema.decodeTree json = .ok (Tree.filled schema doc) ∧
      Value.sameMembers (Tree.filled schema doc) (Tree.filled schema doc) = true := by
  have hsound := hschema.sound
  obtain ⟨members, hmembers, rfl⟩ := Outcome.map_eq_ok.1 hwrite
  have hfields := fun inside (hinside : Tree.encodeFields "" schema.fields doc = .ok inside) =>
    Tree.decodeFields_encodeFields schema.fields hsound.resolved hsound.ordered hdoc.fields hinside
  refine ⟨?_, ?_⟩
  · exact Tree.decodeMembers_encodeMembers hsound.ordered hdoc.ordered hdoc.others
      (fun inside hinside => ⟨(hfields inside hinside).1, (hfields inside hinside).2.2 ""⟩) hmembers
  · obtain ⟨inside, hinside, _⟩ := Outcome.bind_eq_ok.1 hmembers
    exact Tree.same_level hsound.ordered (hfields inside hinside).2.1
      ((ordered_undescribed hdoc.ordered schema.fields).filter _) hdoc.others

/-! ## A parcel -/

/-- An object, a tuple with an object in it, and a reference. -/
def parcelDeclarations : Declarations :=
  [("address", .full { kind := "object" } none
      (some [("city", .shorthand "string"), ("zip", .shorthand "string")]) none),
    ("owner", .full { kind := "reference", target := some "Person" } none none none),
    ("stamp", .full { kind := "tuple" }
      (some (.positions [.kind "boolean", .fields [("label", .shorthand "string")]])) none none)]

/-- The schema that a parcel is declared with. -/
def parcelSchema : Schema where
  fields := [
    ("address", .ofKind (.object [("city", .ofKind (.string ',' false)),
      ("zip", .ofKind (.string ',' false))])),
    ("stamp", .ofKind (.tuple [.scalar .boolean,
      .object [("label", .ofKind (.string ',' false))]]))]
  references := [("owner", ⟨.named "Person", false⟩)]
  relations := []
  warnings := []

/-- A parcel with an owner, without a stamp, and with a note that no field describes. -/
def parcel : Document :=
  [("address", .object [("city", .string "Oslo")]), ("note", .array [.bool true]),
    ("owner", .string "7")]

/-- The schema of parcels comes from its declarations. -/
theorem parcelSchema_isCanonical : parcelSchema.IsCanonical := by
  refine ⟨parcelDeclarations, ⟨by decide, ?_⟩, rfl⟩
  simp +decide [parcelDeclarations, declarationsSatisfy, Declaration.Satisfies, declarationsSatisfy?,
    elementsSatisfy?, Elements.Satisfy, positionsSatisfy, Position.Satisfies, Attributes.WellFormed]

/-- A parcel comes back from its tree filled with nulls and without its owner. -/
theorem Schema.decodeTree_encodeTree_parcel :
    parcelSchema.IsCanonical ∧ Tree.Conforms parcelSchema parcel ∧
      parcelSchema.encodeTree parcel = .ok (.object [("address", .object [("city", .string "Oslo")]),
        ("note", .array [.bool true])]) ∧
      parcelSchema.decodeTree (.object [("address", .object [("city", .string "Oslo")]),
        ("note", .array [.bool true])]) = .ok [("address", .object [("city", .string "Oslo"),
          ("zip", .null)]), ("note", .array [.bool true]), ("stamp", .null)] := by
  have hconforms : Tree.Conforms parcelSchema parcel := by
    refine ⟨by decide, ?_, ?_⟩
    · refine ⟨Or.inr ⟨_, rfl, by decide, trivial, ?_⟩, rfl, trivial⟩
      exact ⟨Or.inr ⟨"Oslo", rfl⟩, rfl, trivial⟩
    · exact ⟨⟨trivial, trivial⟩, trivial⟩
  exact ⟨parcelSchema_isCanonical, hconforms, rfl,
    (Schema.decodeTree_encodeTree parcelSchema_isCanonical hconforms rfl).1⟩

end DocumentSchema
