import DocumentSchema.Proofs.Schema.Stability
import DocumentSchema.Proofs.Value.Same

/-!
# Schemas that equal themselves

The equality of schemas compares numbers as numbers, so a NaN anywhere keeps a schema from being
equal to itself. Resolution keeps it out of literals, weights and defaults; only the precision of a
vector graph may be one. A schema therefore equals the one that its own declarations resolve to
exactly if it has no such graph (`Schema.resolves_same_iff`).
-/

set_option autoImplicit false

namespace DocumentSchema

/-! ## Options of vectors -/

mutual

/-- The options of the vectors that a kind holds, at every depth. -/
def Kind.vectors : Kind → List VectorOptions
  | .vector options => [options]
  | .array element _ => element.vectors
  | .tuple positions => positionsVectors positions
  | .object fields => fieldsVectors fields
  | _ => []
termination_by structural kind => kind

/-- The same for an element. -/
def Element.vectors : Element → List VectorOptions
  | .scalar _ => []
  | .object fields => fieldsVectors fields
termination_by structural element => element

/-- The options of the vectors at the positions of a tuple. -/
def positionsVectors : List Element → List VectorOptions
  | [] => []
  | element :: elements => element.vectors ++ positionsVectors elements
termination_by structural elements => elements

/-- The options of the vectors of a level and below it. -/
def fieldsVectors : List (String × Field) → List VectorOptions
  | [] => []
  | (_, .mk kind _ _ _ _) :: rest => kind.vectors ++ fieldsVectors rest
termination_by structural fields => fields

end

/-- The options of the vectors of a schema, those on the edges of relations included. -/
def Schema.vectors (schema : Schema) : List VectorOptions :=
  fieldsVectors schema.fields ++
    schema.relations.flatMap fun e => (e.2.edge.map fieldsVectors).getD []

/-- The vectors are not looked for in a graph whose precision is a NaN. -/
def VectorOptions.Comparable (options : VectorOptions) : Prop :=
  ∀ m efConstruction efRuntime epsilon,
    options.algorithm = .graph m efConstruction efRuntime epsilon → ∀ negative, epsilon ≠ .nan negative

/-- Options equal themselves exactly if their precision is no NaN. -/
theorem VectorOptions.same_self_iff (options : VectorOptions) :
    options.same options = true ↔ options.Comparable := by
  obtain ⟨algorithm, component, dimension, metric, initialCap⟩ := options
  cases algorithm with
  | flat blockSize => simp [same, Comparable, Algorithm.same]
  | graph m efConstruction efRuntime epsilon =>
    have hprecision : VectorOptions.Comparable
        ⟨.graph m efConstruction efRuntime epsilon, component, dimension, metric, initialCap⟩ ↔
          ∀ negative, epsilon ≠ .nan negative := by
      constructor
      · exact fun h => h m efConstruction efRuntime epsilon rfl
      · rintro h _ _ _ _ ⟨⟩
        exact h
    rw [hprecision, ← Floating.equal_self_iff]
    simp [same, Algorithm.same]

/-! ## Lists and options -/

section

variable {α : Type} {same : α → α → Bool}

/-- An option equals itself exactly if the value that it may have does. -/
theorem sameOption_self_iff {a : Option α} :
    sameOption same a a = true ↔ ∀ b, a = some b → same b b = true := by
  cases a <;> simp [sameOption]

/-- A list equals itself exactly if each of its members does. -/
theorem sameList_self_iff {as : List α} :
    sameList same as as = true ↔ ∀ a ∈ as, same a a = true := by
  induction as with
  | nil => simp [sameList]
  | cons a as ih => rw [sameList, Bool.and_eq_true, ih, List.forall_mem_cons]

end

/-! ## Defaults -/

/-- A default of a leaf kind equals itself. -/
theorem Kind.same_of_keepsLeaf {kind : Kind} {v : Value} (h : kind.KeepsLeaf v) :
    v.same v = true := by
  cases kind with
  | string separator caseSensitive =>
    obtain ⟨s, rfl⟩ := h
    exact decide_eq_true rfl
  | text weight phonetic =>
    obtain ⟨s, rfl⟩ := h
    exact decide_eq_true rfl
  | number literals =>
    obtain ⟨x, rfl, _⟩ := h
    exact Value.same_number x
  | bigInt literals =>
    obtain ⟨i, rfl, _⟩ := h
    exact decide_eq_true rfl
  | boolean =>
    obtain ⟨b, rfl⟩ := h
    exact decide_eq_true rfl
  | date =>
    obtain ⟨m, rfl, hmillis⟩ := h
    -- a number of milliseconds denotes an instant, so it is finite
    obtain ⟨t, ht, _⟩ := Option.map_eq_some_iff.1 hmillis
    obtain ⟨x, hx, _⟩ := Option.bind_eq_some_iff.1 ht
    obtain ⟨y, hy⟩ := Floating.exists_of_isFinite (Option.isSome_of_eq_some hx)
    rw [hy]
    exact Value.same_number y
  | point =>
    obtain ⟨p, rfl, hvalid⟩ := h
    exact Value.same_point hvalid
  | vector options =>
    obtain ⟨xs, rfl, _⟩ := h
    apply Value.sameItems_self
    intro w hw
    obtain ⟨x, _, rfl⟩ := List.mem_map.1 hw
    exact Value.same_number x
  | array element separator => exact absurd h id
  | tuple positions => exact absurd h id
  | object fields => exact absurd h id

/-- Members equal themselves if those of the fields do and the others are plain. -/
theorem sameMembers_of_level {fields : Entries Field} {members : Document}
    (hmembers : Entries.Ordered members) (hplain : Value.membersPlain (undescribed fields members))
    (h : ∀ name, fields.contains name = true → ∀ v, members.get? name = some v →
      v.same v = true) :
    Value.sameMembers members members = true := by
  apply Value.sameMembers_self
  intro e he
  by_cases hfield : fields.contains e.1 = true
  · exact h e.1 hfield e.2 (hmembers.distinct.get?_of_mem he)
  · refine Value.same_of_plain e.2 (Value.membersPlain_iff.1 hplain e ?_)
    exact List.mem_filter.2 ⟨he, by simpa using hfield⟩

mutual

/-- A default equals itself. -/
theorem Kind.same_of_keeps (kind : Kind) {v : Value} (h : kind.Keeps v) : v.same v = true := by
  cases kind with
  | array element separator =>
    obtain rfl | ⟨vs, rfl, hvs⟩ := h
    · rfl
    · exact Value.sameItems_self fun w hw => Element.same_of_keeps element (hvs w hw)
  | tuple positions =>
    obtain rfl | ⟨vs, rfl, hvs⟩ := h
    · rfl
    · exact Value.sameItems_self (forall_same_of_positionsKeep positions hvs)
  | object fields =>
    obtain rfl | ⟨members, rfl, hordered, hplain, hkeep⟩ := h
    · rfl
    · exact sameMembers_of_level hordered hplain (forall_same_of_fieldsKeep fields hkeep)
  | _ =>
    rcases h with rfl | h
    · rfl
    · exact Kind.same_of_keepsLeaf h
termination_by structural kind

/-- A default of an element equals itself. -/
theorem Element.same_of_keeps (element : Element) {v : Value} (h : element.Keeps v) :
    v.same v = true := by
  cases element with
  | scalar kind =>
    rcases h with rfl | h
    · rfl
    · exact Kind.same_of_keepsLeaf h
  | object fields =>
    obtain ⟨members, rfl, hordered, hplain, hkeep⟩ := h
    exact sameMembers_of_level hordered hplain (forall_same_of_fieldsKeep fields hkeep)
termination_by structural element

/-- Defaults of positions equal themselves. -/
theorem forall_same_of_positionsKeep (positions : List Element) {vs : List Value}
    (h : positionsKeep positions vs) : ∀ v ∈ vs, v.same v = true := by
  cases positions with
  | nil =>
    cases vs with
    | nil => simp
    | cons v vs => exact absurd h id
  | cons element elements =>
    cases vs with
    | nil => exact absurd h id
    | cons v vs =>
      exact List.forall_mem_cons.2
        ⟨Element.same_of_keeps element h.1, forall_same_of_positionsKeep elements h.2⟩
termination_by structural positions

/-- Defaults of members equal themselves. -/
theorem forall_same_of_fieldsKeep (fields : List (String × Field)) {members : Document}
    (h : fieldsKeep fields members) : ∀ name, Entries.contains fields name = true →
      ∀ v, members.get? name = some v → v.same v = true := by
  cases fields with
  | nil =>
    rintro name ⟨⟩
  | cons first rest =>
    obtain ⟨key, kind, optional, sortable, indexed, default⟩ := first
    intro name hname v hv
    by_cases hkey : key = name
    · subst hkey
      exact Kind.same_of_keeps kind (h.1 v hv)
    · rw [Entries.contains, Entries.get?, if_neg hkey] at hname
      exact forall_same_of_fieldsKeep rest h.2 name hname v hv
termination_by structural fields

end

/-! ## Fields -/

mutual

/-- A resolved kind equals itself exactly if the options of its vectors do. -/
theorem Kind.same_self_iff (kind : Kind) {indexed : Bool} (h : kind.Resolved indexed) :
    kind.same kind = true ↔ ∀ o ∈ kind.vectors, o.Comparable := by
  cases kind with
  | number literals =>
    have hliterals : ∀ xs, literals = some xs → sameList Floating.equal xs xs = true := by
      intro xs hxs
      refine sameList_self_iff.2 fun x hx => ?_
      obtain ⟨y, rfl⟩ := Floating.exists_of_isFinite (h xs hxs x hx)
      exact Floating.equal_self y
    exact iff_of_true (sameOption_self_iff.2 hliterals) (by simp [Kind.vectors])
  | text weight phonetic =>
    obtain ⟨y, rfl⟩ := Floating.exists_of_isFinite h.1
    refine iff_of_true ?_ (by simp [Kind.vectors])
    rw [Kind.same, Floating.equal_self, decide_eq_true rfl]
    rfl
  | vector options => simpa [Kind.same, Kind.vectors] using options.same_self_iff
  | array element separator =>
    rw [Kind.same, decide_eq_true rfl, Bool.and_true]
    exact Element.same_self_iff element h.2
  | tuple positions => exact sameElements_self_iff positions h.2.2
  | object fields => exact sameFields_self_iff fields h.2
  | _ => simp [Kind.same, Kind.vectors]
termination_by structural kind

/-- A resolved element equals itself exactly if the options of its vectors do. -/
theorem Element.same_self_iff (element : Element) {indexed : Bool} (h : element.Resolved indexed) :
    element.same element = true ↔ ∀ o ∈ element.vectors, o.Comparable := by
  cases element with
  | scalar kind => simp [Element.same, Element.vectors]
  | object fields => exact sameFields_self_iff fields h.2
termination_by structural element

/-- Resolved positions equal themselves exactly if the options of their vectors do. -/
theorem sameElements_self_iff (elements : List Element) {indexed : Bool}
    (h : positionsResolved indexed elements) :
    sameElements elements elements = true ↔ ∀ o ∈ positionsVectors elements, o.Comparable := by
  cases elements with
  | nil => simp [sameElements, positionsVectors]
  | cons element rest =>
    rw [sameElements, Bool.and_eq_true, Element.same_self_iff element h.1,
      sameElements_self_iff rest h.2, positionsVectors, List.forall_mem_append]
termination_by structural elements

/-- The resolved fields of a level equal themselves exactly if the options of their vectors do. -/
theorem sameFields_self_iff (fields : List (String × Field)) {inherited : Bool}
    (h : fieldsResolved inherited fields) :
    sameFields fields fields = true ↔ ∀ o ∈ fieldsVectors fields, o.Comparable := by
  cases fields with
  | nil => simp [sameFields, fieldsVectors]
  | cons first rest =>
    obtain ⟨name, kind, optional, sortable, indexed, default⟩ := first
    obtain ⟨_, ⟨_, _, hkind, hdefault⟩, hrest⟩ := h
    have hkept : sameOption Value.same default default = true :=
      sameOption_self_iff.2 fun v hv => Kind.same_of_keeps kind (hdefault v hv)
    rw [sameFields, Field.same, hkept, Bool.and_eq_true, fieldsVectors, List.forall_mem_append,
      ← sameFields_self_iff rest hrest, ← Kind.same_self_iff kind hkind]
    simp
termination_by structural fields

end

/-! ## Schemas -/

/-- A relation equals itself exactly if the options of the vectors on its edges do. -/
theorem Relation.same_self_iff {r : Relation}
    (h : ∀ fields, r.edge = some fields → fieldsResolved true fields) :
    r.same r = true ↔ ∀ o ∈ (r.edge.map fieldsVectors).getD [], o.Comparable := by
  obtain ⟨target, optional, indexed, edge⟩ := r
  cases edge with
  | none => simp [Relation.same, sameOption]
  | some fields => simpa [Relation.same, sameOption] using sameFields_self_iff fields (h fields rfl)

/-- A canonical schema equals itself exactly if no precision of a graph is a NaN. -/
theorem Schema.same_self_iff {schema : Schema} (h : schema.IsCanonical) :
    schema.same schema = true ↔ ∀ o ∈ schema.vectors, o.Comparable := by
  have hfields := sameFields_self_iff schema.fields h.sound.resolved
  have hrelations : sameList (fun r s : String × Relation => r.1 = s.1 && r.2.same s.2)
      schema.relations schema.relations = true ↔
        ∀ e ∈ schema.relations, ∀ o ∈ (e.2.edge.map fieldsVectors).getD [], o.Comparable := by
    rw [sameList_self_iff]
    refine forall₂_congr fun e he => ?_
    rw [decide_eq_true rfl, Bool.true_and, Relation.same_self_iff (h.edges_resolved e he)]
  have hvectors : (∀ o ∈ schema.vectors, o.Comparable) ↔
      (∀ o ∈ fieldsVectors schema.fields, o.Comparable) ∧
        ∀ e ∈ schema.relations, ∀ o ∈ (e.2.edge.map fieldsVectors).getD [], o.Comparable := by
    simp only [vectors, List.forall_mem_append, List.forall_mem_flatMap]
  rw [hvectors, ← hfields, ← hrelations]
  simp [same]

/-- The declarations of a resolved schema resolve to one that equals it, exactly if no precision of
a graph is a NaN. -/
theorem Schema.resolves_same_iff {declarations : Declarations} (hdeclarations : declarations.WellFormed)
    {schema : Schema} (h : Schema.ofDeclarations declarations = .ok schema) :
    ∃ again, Schema.ofDeclarations schema.toDeclarations = .ok again ∧
      (again.same schema = true ↔ ∀ o ∈ schema.vectors, o.Comparable) := by
  obtain ⟨_, _, _, hstable⟩ := Schema.exists_entries_toDeclarations (fun _ ha => ha)
    hdeclarations.1 hdeclarations.2 h
  exact ⟨schema, hstable, Schema.same_self_iff ⟨declarations, hdeclarations, h⟩⟩

/-- A graph whose precision is a NaN is accepted, and its schema does not equal itself. -/
example :
    (Schema.ofDeclarations [("cover", .full
      { kind := "vector", algorithm := some "HNSW", component := some "FLOAT32",
        dimension := some 2, metric := some "L2", epsilon := some (.nan false) }
      none none none)]).toOption.map (fun schema => schema.same schema) = some false := by
  decide +kernel

end DocumentSchema
