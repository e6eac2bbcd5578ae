import DocumentSchema.Proofs.Coordinates
import DocumentSchema.Proofs.Decimal.Numeral
import DocumentSchema.Proofs.Outcome
import DocumentSchema.Proofs.Schema.Level
import DocumentSchema.Proofs.Schema.Resolved
import DocumentSchema.Proofs.Time

/-!
# Defaults are fixed points

What coercion gives for a declared default is a value that the kind keeps (`keeps_of_ofKind`), and
the tree of a value that the kind keeps is coerced to that value (`ofKind_toJson`). So coercing the
tree of a coerced default changes nothing, at every depth.
-/

set_option autoImplicit false

namespace DocumentSchema.Default

open Outcome

/-! ## Leaves -/

/-- Finite numbers are all read back from their JSON. -/
theorem mapM_toBinary? (xs : List Finite64) :
    (xs.map fun x => Json.number (.float x)).mapM Json.toBinary? = some (xs.map .finite) := by
  induction xs with
  | nil => rfl
  | cons x xs ih =>
    rw [List.map_cons, List.mapM_cons, ih]
    rfl

/-- Numbers that were read from JSON are finite, one for each item. -/
theorem exists_of_mapM {items : List Json} {xs : List Binary64}
    (h : items.mapM Json.toBinary? = some xs) :
    ∃ ys : List Finite64, xs = ys.map .finite ∧ ys.length = items.length := by
  induction items generalizing xs with
  | nil =>
    obtain rfl := Option.some.inj h
    exact ⟨[], rfl, rfl⟩
  | cons item items ih =>
    rw [List.mapM_cons] at h
    obtain ⟨x, hx, h⟩ := Option.bind_eq_some_iff.1 h
    obtain ⟨rest, hrest, h⟩ := Option.bind_eq_some_iff.1 h
    obtain rfl := Option.some.inj h
    obtain ⟨ys, rfl, hlength⟩ := ih hrest
    obtain ⟨y, rfl⟩ := Value.exists_of_toBinary? hx
    exact ⟨y :: ys, rfl, by rw [List.length_cons, List.length_cons, hlength]⟩

/-- What is coerced to a text is one. -/
theorem text_eq_ok {path : String} {json : Json} {v : Value} (h : text path json = .ok v) :
    ∃ s, v = .string s := by
  unfold text at h
  split at h
  · exact ⟨_, (Except.ok.inj h).symm⟩
  · exact ⟨_, (Except.ok.inj h).symm⟩
  · exact ⟨_, (Except.ok.inj h).symm⟩
  · cases h

/-- What is coerced to a number is a finite one among the literals. -/
theorem number_eq_ok {path : String} {literals : Option (List Binary64)} {json : Json} {v : Value}
    (h : number path literals json = .ok v) :
    ∃ x : Finite64, v = .number (.finite x) ∧ admits Floating.equal literals (.finite x) = true := by
  unfold number at h
  split at h
  · cases h
  · rename_i x hx
    obtain ⟨y, rfl⟩ := Value.exists_of_toBinary? hx
    split at h
    · rename_i hadmits
      exact ⟨y, (Except.ok.inj h).symm, hadmits⟩
    · cases h

/-- What is coerced to an integer is one among the literals. -/
theorem bigInt_eq_ok {path : String} {literals : Option (List Int128)} {json : Json} {v : Value}
    (h : bigInt path literals json = .ok v) :
    ∃ i, v = .bigInt i ∧ admits (fun a b => a = b) literals i = true := by
  unfold bigInt at h
  split at h
  · cases h
  · rename_i i _
    split at h
    · rename_i hadmits
      exact ⟨i, (Except.ok.inj h).symm, hadmits⟩
    · cases h

/-- What is coerced to a truth value is one. -/
theorem boolean_eq_ok {path : String} {json : Json} {v : Value}
    (h : boolean path json = .ok v) : ∃ b, v = .bool b := by
  unfold boolean at h
  split at h
  · exact ⟨_, (Except.ok.inj h).symm⟩
  · cases h

/-- The milliseconds of a date denote themselves. -/
theorem date_eq_ok {path : String} {json : Json} {v : Value} (h : date path json = .ok v) :
    ∃ m, v = .number (Floating.ofInt .binary64 m) ∧ v.toMillis? = some m := by
  unfold date at h
  split at h
  · rename_i m hm
    obtain rfl := Except.ok.inj h
    exact ⟨m, rfl, Value.toMillis?_ofInt hm⟩
  · cases h

/-- What is coerced to a point is a valid one. -/
theorem point_eq_ok {path : String} {json : Json} {v : Value} (h : point path json = .ok v) :
    ∃ p, v = .point p ∧ p.isValid = true := by
  unfold point at h
  split at h
  · cases h
  · rename_i p _
    split at h
    · rename_i hvalid
      exact ⟨p, (Except.ok.inj h).symm, hvalid⟩
    · cases h

/-- What is coerced to a vector has as many finite components as the vector has dimensions. -/
theorem vector_eq_ok {path : String} {dimension : UInt32} {json : Json} {v : Value}
    (h : vector path dimension json = .ok v) :
    ∃ xs : List Finite64, v = .array (xs.map fun x => .number (.finite x)) ∧
      xs.length = dimension.toNat := by
  unfold vector at h
  split at h
  · cases h
  · rename_i items _
    split at h
    · cases h
    · rename_i hlength
      split at h
      · rename_i xs hxs
        obtain ⟨ys, rfl, hsame⟩ := exists_of_mapM hxs
        refine ⟨ys, ?_, hsame.trans (Decidable.not_not.1 hlength)⟩
        rw [← Except.ok.inj h, List.map_map]
        rfl
      · cases h

/-- What coercion gives for a field of a leaf kind. -/
theorem keepsLeaf_of_ofKind {kind : Kind} (hleaf : kind.isLeaf = true) {path : String}
    {json : Json} (hnull : json.isNull = false) {v : Value} (h : ofKind path kind json = .ok v) :
    kind.KeepsLeaf v := by
  cases kind with
  | array element separator => cases hleaf
  | tuple positions => cases hleaf
  | object fields => cases hleaf
  | string separator caseSensitive =>
    rw [ofKind, hnull] at h
    exact text_eq_ok h
  | text weight phonetic =>
    rw [ofKind, hnull] at h
    exact text_eq_ok h
  | number literals =>
    rw [ofKind, hnull] at h
    exact number_eq_ok h
  | bigInt literals =>
    rw [ofKind, hnull] at h
    exact bigInt_eq_ok h
  | boolean =>
    rw [ofKind, hnull] at h
    exact boolean_eq_ok h
  | date =>
    rw [ofKind, hnull] at h
    exact date_eq_ok h
  | point =>
    rw [ofKind, hnull] at h
    exact point_eq_ok h
  | vector options =>
    rw [ofKind, hnull] at h
    exact vector_eq_ok h

/-- A number of milliseconds that denotes itself is read back from its tree. -/
theorem date_toJson {path : String} {m : Int}
    (h : (Value.number (Floating.ofInt .binary64 m)).toMillis? = some m) :
    ofKind path .date (Value.number (Floating.ofInt .binary64 m)).toJson =
      .ok (.number (Floating.ofInt .binary64 m)) := by
  cases hx : Floating.ofInt .binary64 m with
  | finite x =>
    rw [hx] at h
    have hread : (Value.ofJson (.number (.float x))).toMillis? = some m := h
    show date path (.number (.float x)) = _
    simp only [date, hread, hx]
  | infinite negative =>
    rw [hx] at h
    cases h
  | nan negative =>
    rw [hx] at h
    cases h

/-- A vector of the right dimension is coerced to itself. -/
theorem vector_toJson {path : String} {dimension : UInt32} {xs : List Finite64}
    (h : xs.length = dimension.toNat) :
    vector path dimension (Value.array (xs.map fun x => .number (.finite x))).toJson =
      .ok (.array (xs.map fun x => .number (.finite x))) := by
  have hxs : (xs.map (Value.toJson ∘ fun x => .number (.finite x))) =
      xs.map fun x => Json.number (.float x) := rfl
  show vector path dimension (.array (Value.itemsToJson _)) = _
  rw [Value.itemsToJson_eq, List.map_map, vector]
  simp only [Json.toItems?, hxs, mapM_toBinary?, List.length_map, h, ne_eq, not_true_eq_false,
    if_false, List.map_map]
  rfl

/-- The tree of what a field of a leaf kind keeps is coerced to the same value. -/
theorem ofKind_leaf {kind : Kind} (path : String) {v : Value} (h : kind.KeepsLeaf v) :
    ofKind path kind v.toJson = .ok v := by
  cases kind with
  | string separator caseSensitive =>
    obtain ⟨s, rfl⟩ := h
    rfl
  | text weight phonetic =>
    obtain ⟨s, rfl⟩ := h
    rfl
  | number literals =>
    obtain ⟨x, rfl, hadmits⟩ := h
    show number path literals (.number (.float x)) = _
    rw [number]
    exact if_pos hadmits
  | bigInt literals =>
    obtain ⟨i, rfl, hadmits⟩ := h
    show bigInt path literals (.string i.text) = _
    rw [bigInt, Json.toInt128?, Int128.read_text]
    exact if_pos hadmits
  | boolean =>
    obtain ⟨b, rfl⟩ := h
    rfl
  | date =>
    obtain ⟨m, rfl, hm⟩ := h
    exact date_toJson hm
  | point =>
    obtain ⟨p, rfl, hvalid⟩ := h
    show point path (.string p.text) = _
    rw [point, Json.toCoordinates?, Coordinates.read?_text_of_isValid hvalid]
    exact if_pos hvalid
  | vector options =>
    obtain ⟨xs, rfl, hlength⟩ := h
    exact vector_toJson hlength
  | array element separator => exact absurd h id
  | tuple positions => exact absurd h id
  | object fields => exact absurd h id

/-- An element of a kind of scalar is coerced as a field of that kind. -/
theorem scalar_eq_ofKind (path : String) (kind : Scalar) (json : Json) :
    scalar path kind json = ofKind path (Kind.ofScalar kind) json := by
  cases kind <;> rfl

/-- The kinds of scalars are leaves. -/
theorem isLeaf_ofScalar (kind : Scalar) : (Kind.ofScalar kind).isLeaf = true := by
  cases kind <;> rfl

/-- A leaf field keeps null and what its kind keeps. -/
theorem keeps_leaf {kind : Kind} (hleaf : kind.isLeaf = true) {v : Value} :
    kind.Keeps v ↔ v = .null ∨ kind.KeepsLeaf v := by
  cases kind with
  | array element separator => cases hleaf
  | tuple positions => cases hleaf
  | object fields => cases hleaf
  | _ => rfl

/-! ## Elements, positions and members -/

/-- Every value of the items comes from one of the trees. -/
theorem exists_of_mem_items {path : String} {read : String → Json → Except SchemaError Value}
    {index : Nat} {trees : List Json} {vs : List Value} (h : items path read index trees = .ok vs) :
    ∀ v ∈ vs, ∃ below, ∃ tree ∈ trees, read below tree = .ok v := by
  induction trees generalizing index vs with
  | nil =>
    obtain rfl := Except.ok.inj h
    exact fun v hv => absurd hv (by simp)
  | cons tree trees ih =>
    obtain ⟨first, hfirst, h⟩ := bind_eq_ok.1 h
    obtain ⟨rest, hrest, h⟩ := bind_eq_ok.1 h
    obtain rfl := pure_eq_ok.1 h
    intro v hv
    rcases List.mem_cons.1 hv with rfl | hv
    · exact ⟨_, tree, List.mem_cons_self, hfirst⟩
    · obtain ⟨below, tree', htree, hread⟩ := ih hrest v hv
      exact ⟨below, tree', List.mem_cons_of_mem _ htree, hread⟩

/-- Trees that are read back one by one are read back together. -/
theorem items_toJson {path : String} {read : String → Json → Except SchemaError Value}
    {vs : List Value} (h : ∀ v ∈ vs, ∀ below, read below v.toJson = .ok v) (index : Nat) :
    items path read index (Value.itemsToJson vs) = .ok vs := by
  induction vs generalizing index with
  | nil => rfl
  | cons v vs ih =>
    obtain ⟨hv, hvs⟩ := List.forall_mem_cons.1 h
    rw [Value.itemsToJson, items, hv, ok_bind, ih hvs, ok_bind]
    rfl

/-- An object that is read back: its described members one by one, the others as they are. -/
theorem object_toJson {fields : Entries Field} (hordered : fields.Ordered) {members : Document}
    (hmembers : Entries.Ordered members) (hplain : Value.membersPlain (undescribed fields members))
    (path : String) {read : Entries Json → Except SchemaError Document}
    (hread : read (Entries.mapValues Value.toJson members) = .ok (described fields members)) :
    object path fields read (Value.object members).toJson = .ok (.object members) := by
  show object path fields read (.object (Value.membersToJson members)) = _
  rw [Value.membersToJson_eq, object, hread, ok_bind, ← mapValues_undescribed,
    ← Value.membersToJson_eq, Value.membersOfJson_membersToJson _ hplain,
    insertAll_described hordered hmembers]
  rfl

/-- What is coerced to an object has its described members, and outside of them plain values under
keys of their own. -/
theorem object_eq_ok {fields : Entries Field} {path : String}
    {read : Entries Json → Except SchemaError Document} {json : Json} (hjson : json.WellFormed)
    {v : Value} (h : object path fields read json = .ok v) :
    ∃ members, membersWellFormed members ∧ ∃ inside, read members = .ok inside ∧
      ∃ outside : Document, outside.Ordered ∧ Value.membersPlain outside ∧
        (∀ e ∈ outside, fields.contains e.1 = false) ∧ v = .object (inside.insertAll outside) := by
  cases json with
  | object members =>
    obtain ⟨hordered, hmembers⟩ := hjson
    obtain ⟨inside, hinside, h⟩ := bind_eq_ok.1 h
    obtain rfl := pure_eq_ok.1 h
    refine ⟨members, hmembers, inside, hinside, _, ?_, Value.membersPlain_membersOfJson _, ?_, rfl⟩
    · rw [Value.membersOfJson_eq]
      exact (ordered_undescribed hordered fields).mapValues _
    · rw [Value.membersOfJson_eq, mapValues_undescribed]
      exact fun e he => (mem_undescribed.1 he).2
  | null => cases h
  | bool b => cases h
  | number n => cases h
  | string s => cases h
  | array items => cases h

/-- Only an array is coerced for a field of arrays. -/
theorem array_eq_ok {path : String} {element : Element} {separator : Char} {json : Json}
    (hnull : json.isNull = false) {v : Value}
    (h : ofKind path (.array element separator) json = .ok v) :
    ∃ trees vs, json = .array trees ∧ v = .array vs ∧
      items path (fun path tree => ofElement path element tree) 0 trees = .ok vs := by
  cases json with
  | array trees =>
    simp only [ofKind, Json.isNull, Bool.false_eq_true, if_false] at h
    obtain ⟨vs, hvs, h⟩ := bind_eq_ok.1 h
    exact ⟨trees, vs, rfl, (pure_eq_ok.1 h).symm, hvs⟩
  | null => cases hnull
  | bool b => cases h
  | number n => cases h
  | string s => cases h
  | object members => cases h

/-- Only an array of the right length is coerced for a tuple. -/
theorem tuple_eq_ok {path : String} {positions : List Element} {json : Json}
    (hnull : json.isNull = false) {v : Value} (h : ofKind path (.tuple positions) json = .ok v) :
    ∃ trees vs, json = .array trees ∧ v = .array vs ∧ trees.length = positions.length ∧
      ofPositions path 0 positions trees = .ok vs := by
  cases json with
  | array trees =>
    simp only [ofKind, Json.isNull, Bool.false_eq_true, if_false] at h
    split at h
    · cases h
    · rename_i hlength
      obtain ⟨vs, hvs, h⟩ := bind_eq_ok.1 h
      exact ⟨trees, vs, rfl, (pure_eq_ok.1 h).symm, Decidable.not_not.1 hlength, hvs⟩
  | null => cases hnull
  | bool b => cases h
  | number n => cases h
  | string s => cases h
  | object members => cases h

mutual

/-- What coercion gives is a value that the kind keeps. -/
theorem keeps_of_ofKind (kind : Kind) {indexed : Bool} (hkind : kind.Resolved indexed)
    {path : String} {json : Json} (hjson : json.WellFormed) {v : Value}
    (h : ofKind path kind json = .ok v) : kind.Keeps v := by
  cases hnull : json.isNull with
  | true =>
    have hv : v = .null := by
      unfold ofKind at h
      rw [hnull] at h
      exact (Except.ok.inj h).symm
    cases kind <;> exact Or.inl hv
  | false =>
    cases kind with
    | array element separator =>
      obtain ⟨trees, vs, rfl, rfl, hvs⟩ := array_eq_ok hnull h
      refine Or.inr ⟨vs, rfl, ?_⟩
      intro w hw
      obtain ⟨below, tree, htree, hread⟩ := exists_of_mem_items hvs w hw
      exact keeps_of_ofElement element hkind.2 (itemsWellFormed_of_mem hjson.2 tree htree) hread
    | tuple positions =>
      obtain ⟨trees, vs, rfl, rfl, hlength, hvs⟩ := tuple_eq_ok hnull h
      exact Or.inr ⟨vs, rfl, keep_of_ofPositions positions hkind.2.2 hjson.2 hlength hvs⟩
    | object fields =>
      rw [ofKind, hnull] at h
      refine Or.inr ?_
      obtain ⟨members, hmembers, inside, hinside, outside, houtside, hplain, hapart, rfl⟩ :=
        object_eq_ok hjson h
      obtain ⟨hkeys, hkeep⟩ := keep_of_ofMembers fields hkind.2 hkind.1 hmembers hinside
      have hlevel : Level fields inside outside := ⟨hkind.1, hkeys, houtside, hapart⟩
      exact ⟨_, rfl, hlevel.ordered, hlevel.undescribed_eq.symm ▸ hplain, hkeep _ hlevel.agree⟩
    | _ => exact (keeps_leaf rfl).2 (Or.inr (keepsLeaf_of_ofKind rfl hnull h))
termination_by structural kind

/-- An element keeps what a default is coerced to. -/
theorem keeps_of_ofElement (element : Element) {indexed : Bool} (helement : element.Resolved indexed)
    {path : String} {json : Json} (hjson : json.WellFormed) {v : Value}
    (h : ofElement path element json = .ok v) : element.Keeps v := by
  cases element with
  | scalar kind =>
    rw [ofElement, scalar_eq_ofKind] at h
    cases hnull : json.isNull with
    | true =>
      unfold ofKind at h
      rw [hnull] at h
      exact Or.inl (Except.ok.inj h).symm
    | false => exact Or.inr (keepsLeaf_of_ofKind (isLeaf_ofScalar kind) hnull h)
  | object fields =>
    obtain ⟨members, hmembers, inside, hinside, outside, houtside, hplain, hapart, rfl⟩ :=
      object_eq_ok hjson h
    obtain ⟨hkeys, hkeep⟩ := keep_of_ofMembers fields helement.2 helement.1 hmembers hinside
    have hlevel : Level fields inside outside := ⟨helement.1, hkeys, houtside, hapart⟩
    exact ⟨_, rfl, hlevel.ordered, hlevel.undescribed_eq.symm ▸ hplain, hkeep _ hlevel.agree⟩
termination_by structural element

/-- What coercion gives for the positions of a tuple. -/
theorem keep_of_ofPositions (positions : List Element) {indexed : Bool}
    (hpositions : positionsResolved indexed positions) {path : String} {index : Nat}
    {trees : List Json} (htrees : itemsWellFormed trees) (hlength : trees.length = positions.length)
    {vs : List Value} (h : ofPositions path index positions trees = .ok vs) :
    positionsKeep positions vs := by
  cases positions with
  | nil =>
    obtain rfl := Except.ok.inj h
    exact trivial
  | cons element elements =>
    cases trees with
    | nil => cases hlength
    | cons tree trees =>
      obtain ⟨v, hv, h⟩ := bind_eq_ok.1 h
      obtain ⟨rest, hrest, h⟩ := bind_eq_ok.1 h
      obtain rfl := pure_eq_ok.1 h
      exact ⟨keeps_of_ofElement element hpositions.1 htrees.1 hv,
        keep_of_ofPositions elements hpositions.2 htrees.2 (Nat.succ.inj hlength) hrest⟩
termination_by structural positions

/-- What coercion gives for the fields of an object: entries for some of them, which they keep. -/
theorem keep_of_ofMembers (fields : List (String × Field)) {indexed : Bool}
    (hfields : fieldsResolved indexed fields) (hordered : Entries.Ordered fields) {path : String}
    {members : Entries Json} (hmembers : membersWellFormed members) {inside : Document}
    (h : ofMembers path fields members = .ok inside) :
    inside.keys.Sublist (Entries.keys fields) ∧
      ∀ doc, Agree fields doc inside → fieldsKeep fields doc := by
  cases fields with
  | nil =>
    obtain rfl := Except.ok.inj h
    exact ⟨List.Sublist.refl _, fun _ _ => trivial⟩
  | cons first rest =>
    obtain ⟨name, kind, optional, sortable, isIndexed, default⟩ := first
    obtain ⟨_, ⟨_, _, hkind, _⟩, hrest⟩ := hfields
    rw [ofMembers] at h
    split at h
    · obtain ⟨hkeys, hkeep⟩ := keep_of_ofMembers rest hrest hordered.tail hmembers h
      refine ⟨hkeys.cons name, ?_⟩
      intro doc hagree
      obtain ⟨habsent, hagree⟩ := hagree.absent hordered hkeys
      refine ⟨?_, hkeep doc hagree⟩
      intro v hv
      rw [habsent] at hv
      cases hv
    · rename_i json hjson
      obtain ⟨v, hv, h⟩ := bind_eq_ok.1 h
      obtain ⟨others, hothers, h⟩ := bind_eq_ok.1 h
      obtain rfl := pure_eq_ok.1 h
      obtain ⟨hkeys, hkeep⟩ := keep_of_ofMembers rest hrest hordered.tail hmembers hothers
      refine ⟨hkeys.cons_cons name, ?_⟩
      intro doc hagree
      obtain ⟨hpresent, hagree⟩ := hagree.present hordered
      refine ⟨?_, hkeep doc hagree⟩
      intro w hw
      rw [hpresent] at hw
      obtain rfl := Option.some.inj hw
      exact keeps_of_ofKind kind hkind (membersWellFormed_get? hmembers hjson) hv
termination_by structural fields

end

mutual

/-- The tree of a value that the kind keeps is coerced to that value. -/
theorem ofKind_toJson (kind : Kind) {indexed : Bool} (hkind : kind.Resolved indexed) (path : String)
    {v : Value} (h : kind.Keeps v) : ofKind path kind v.toJson = .ok v := by
  cases kind with
  | array element separator =>
    rcases h with rfl | ⟨vs, rfl, hvs⟩
    · rfl
    · show (items path (fun path tree => ofElement path element tree) 0 (Value.itemsToJson vs) >>=
        fun values => pure (Value.array values)) = _
      rw [items_toJson fun v hv below => ofElement_toJson element hkind.2 below (hvs v hv), ok_bind]
      rfl
  | tuple positions =>
    rcases h with rfl | ⟨vs, rfl, hvs⟩
    · rfl
    · obtain ⟨hlength, hread⟩ := ofPositions_toJson positions hkind.2.2 path 0 hvs
      show (if (Value.itemsToJson vs).length ≠ positions.length then _
        else ofPositions path 0 positions (Value.itemsToJson vs) >>=
          fun values => pure (Value.array values)) = _
      rw [Value.itemsToJson_eq, List.length_map, hlength] at *
      rw [if_neg (fun h => h rfl), hread, ok_bind]
      rfl
  | object fields =>
    rcases h with rfl | ⟨members, rfl, hmembers, hplain, hkeep⟩
    · rfl
    · exact object_toJson hkind.1 hmembers hplain path
        (ofMembers_toJson fields hkind.2 path hkeep)
  | _ =>
    rcases (keeps_leaf rfl).1 h with rfl | h
    · rfl
    · exact ofKind_leaf path h
termination_by structural kind

/-- What an element keeps is coerced to itself. -/
theorem ofElement_toJson (element : Element) {indexed : Bool} (helement : element.Resolved indexed)
    (path : String) {v : Value} (h : element.Keeps v) : ofElement path element v.toJson = .ok v := by
  cases element with
  | scalar kind =>
    rw [ofElement, scalar_eq_ofKind]
    rcases h with rfl | h
    · cases kind <;> rfl
    · exact ofKind_leaf path h
  | object fields =>
    obtain ⟨members, rfl, hmembers, hplain, hkeep⟩ := h
    exact object_toJson helement.1 hmembers hplain path
      (ofMembers_toJson fields helement.2 path hkeep)
termination_by structural element

/-- The trees of the values that the positions of a tuple keep. -/
theorem ofPositions_toJson (positions : List Element) {indexed : Bool}
    (hpositions : positionsResolved indexed positions) (path : String) (index : Nat)
    {vs : List Value} (h : positionsKeep positions vs) :
    vs.length = positions.length ∧
      ofPositions path index positions (Value.itemsToJson vs) = .ok vs := by
  cases positions with
  | nil =>
    cases vs with
    | nil => exact ⟨rfl, rfl⟩
    | cons v vs => exact absurd h id
  | cons element elements =>
    cases vs with
    | nil => exact absurd h id
    | cons v vs =>
      obtain ⟨hv, hvs⟩ := h
      obtain ⟨hlength, hrest⟩ :=
        ofPositions_toJson elements hpositions.2 path (index + 1) hvs
      refine ⟨congrArg Nat.succ hlength, ?_⟩
      rw [Value.itemsToJson, ofPositions, ofElement_toJson element hpositions.1 _ hv, ok_bind, hrest,
        ok_bind]
      rfl
termination_by structural positions

/-- Members that the fields of a level keep are coerced to the described ones among them. -/
theorem ofMembers_toJson (fields : List (String × Field)) {indexed : Bool}
    (hfields : fieldsResolved indexed fields) (path : String) {members : Document}
    (h : fieldsKeep fields members) :
    ofMembers path fields (Entries.mapValues Value.toJson members) =
      .ok (described fields members) := by
  cases fields with
  | nil => rfl
  | cons first rest =>
    obtain ⟨name, kind, optional, sortable, isIndexed, default⟩ := first
    obtain ⟨_, ⟨_, _, hkind, _⟩, hrest⟩ := hfields
    obtain ⟨hkeep, hkeepRest⟩ := h
    have ih := ofMembers_toJson rest hrest path hkeepRest
    rw [ofMembers, Entries.get?_mapValues, described, List.filterMap_cons]
    cases hget : members.get? name with
    | none => exact ih
    | some v =>
      simp only [Option.map_some]
      rw [ofKind_toJson kind hkind _ (hkeep v hget), ok_bind, ih, ok_bind]
      rfl
termination_by structural fields

end

/-! ## Defaults other than null -/

/-- What the kind of a leaf field keeps is not written as null. -/
theorem toJson_ne_null_of_keepsLeaf {kind : Kind} {v : Value} (h : kind.KeepsLeaf v) :
    v.toJson ≠ .null := by
  cases kind with
  | string separator caseSensitive =>
    obtain ⟨s, rfl⟩ := h
    rintro ⟨⟩
  | text weight phonetic =>
    obtain ⟨s, rfl⟩ := h
    rintro ⟨⟩
  | number literals =>
    obtain ⟨x, rfl, _⟩ := h
    rintro ⟨⟩
  | bigInt literals =>
    obtain ⟨i, rfl, _⟩ := h
    rintro ⟨⟩
  | boolean =>
    obtain ⟨b, rfl⟩ := h
    rintro ⟨⟩
  | date =>
    obtain ⟨m, rfl, hm⟩ := h
    cases hx : Floating.ofInt .binary64 m with
    | finite x => rintro ⟨⟩
    | infinite negative =>
      rw [hx] at hm
      cases hm
    | nan negative =>
      rw [hx] at hm
      cases hm
  | point =>
    obtain ⟨p, rfl, _⟩ := h
    rintro ⟨⟩
  | vector options =>
    obtain ⟨xs, rfl, _⟩ := h
    rintro ⟨⟩
  | array element separator => exact absurd h id
  | tuple positions => exact absurd h id
  | object fields => exact absurd h id

/-- What something other than null is coerced to is not written as null. -/
theorem toJson_ne_null {kind : Kind} {path : String} {json : Json} (hnull : json ≠ .null) {v : Value}
    (h : ofKind path kind json = .ok v) : v.toJson ≠ .null := by
  have hnull : json.isNull = false := by
    cases json <;> first | rfl | exact absurd rfl hnull
  cases kind with
  | array element separator =>
    obtain ⟨trees, vs, rfl, rfl, _⟩ := array_eq_ok hnull h
    rintro ⟨⟩
  | tuple positions =>
    obtain ⟨trees, vs, rfl, rfl, _⟩ := tuple_eq_ok hnull h
    rintro ⟨⟩
  | object fields =>
    cases json with
    | object members =>
      rw [ofKind] at h
      obtain ⟨inside, _, h⟩ := bind_eq_ok.1 h
      obtain rfl := pure_eq_ok.1 h
      rintro ⟨⟩
    | null => cases hnull
    | bool b => cases h
    | number n => cases h
    | string s => cases h
    | array items => cases h
  | _ => exact toJson_ne_null_of_keepsLeaf (keepsLeaf_of_ofKind rfl hnull h)

end DocumentSchema.Default
