import DocumentSchema.Codec.Hash
import DocumentSchema.Codec.Tree
import DocumentSchema.Proofs.Codec.Admission
import DocumentSchema.Proofs.Outcome
import DocumentSchema.Proofs.Schema.Canonical

/-!
# Keys of what is written and read

Writing gives entries for fields that a document has or has defaults for, in the order of the fields.
Reading fills in every field, so the keys of a document that was read are the names of the fields
and the names that stand in the hash or in the tree. A tree is read without the entries at links
(`Schema.HasKeysOf`), but a hash is read with them, so the same holds of a hash exactly if it has
nothing at a link (`Schema.decoded_keys_iff`).
-/

set_option autoImplicit false

namespace DocumentSchema

open Outcome

/-- A document has the keys of the fields, and those of what it was read from except links. -/
def Schema.HasKeysOf {α : Type} (schema : Schema) (source : Entries α) (doc : Document) : Prop :=
  ∀ name, doc.contains name = true ↔
    schema.fields.contains name = true ∨
      source.contains name = true ∧ schema.isLink name = false

/-- What no field describes has the keys that are not fields. -/
theorem contains_undescribed {α : Type} (fields : Entries Field) (entries : Entries α)
    (name : String) :
    (undescribed fields entries).contains name =
      (!fields.contains name && entries.contains name) := by
  rw [Entries.contains, get?_undescribed]
  cases hname : fields.contains name with
  | true => rfl
  | false => simp [Entries.contains]

/-- What is read for a field and for the others: what stands there for the field, or null. -/
theorem readFirst_eq_ok {α : Type} {found : Option α} {read : α → Except DecodeError Value}
    {later : Except DecodeError Document} {name : String} {doc : Document}
    (h : ((match found with
        | none => pure .null
        | some a => read a) >>= fun v => later >>= fun vs => pure ((name, v) :: vs)) = .ok doc) :
    ∃ v others, (found = none ∧ v = .null ∨ ∃ a, found = some a ∧ read a = .ok v) ∧
      later = .ok others ∧ doc = (name, v) :: others := by
  obtain ⟨v, hv, h⟩ := bind_eq_ok.1 h
  obtain ⟨others, hothers, h⟩ := bind_eq_ok.1 h
  refine ⟨v, others, ?_, hothers, (pure_eq_ok.1 h).symm⟩
  cases found with
  | none => exact Or.inl ⟨rfl, (pure_eq_ok.1 hv).symm⟩
  | some a => exact Or.inr ⟨a, rfl, hv⟩

namespace Hash

/-- What reading the first field of a hash adds to the others. -/
theorem decodeFields_cons {hash : Entries String} {name : String} {field : Field}
    {rest : Entries Field} {doc : Document}
    (h : decodeFields hash ((name, field) :: rest) = .ok doc) :
    ∃ v others, (hash.get? name = none ∧ v = .null ∨
        ∃ raw, hash.get? name = some raw ∧ readKind name field.kind raw = .ok v) ∧
      decodeFields hash rest = .ok others ∧ doc = (name, v) :: others := by
  apply readFirst_eq_ok
  rw [← h, decodeFields]
  cases hash.get? name <;> rfl

/-- Reading a hash gives every field, in the order of the fields. -/
theorem keys_decodeFields {hash : Entries String} {fields : Entries Field} {doc : Document}
    (h : decodeFields hash fields = .ok doc) : doc.keys = fields.keys := by
  induction fields generalizing doc with
  | nil =>
    obtain rfl := Except.ok.inj h
    rfl
  | cons first rest ih =>
    obtain ⟨v, others, _, hothers, rfl⟩ := decodeFields_cons h
    exact congrArg (first.1 :: ·) (ih hothers)

end Hash

namespace Tree

/-- What reading the first field of a level adds to the others. -/
theorem decodeFields_cons {path : String} {members : Entries Json} {name : String} {kind : Kind}
    {optional sortable indexed : Bool} {default : Option Value} {rest : Entries Field}
    {doc : Document}
    (h : decodeFields path ((name, .mk kind optional sortable indexed default) :: rest) members =
      .ok doc) :
    ∃ v others, (members.get? name = none ∧ v = .null ∨
        ∃ json, members.get? name = some json ∧ decodeKind (below path name) kind json = .ok v) ∧
      decodeFields path rest members = .ok others ∧ doc = (name, v) :: others := by
  apply readFirst_eq_ok
  rw [← h, decodeFields]
  cases members.get? name <;> rfl

/-- Reading a tree gives every field of a level, in the order of the fields. -/
theorem keys_decodeFields {path : String} {fields : Entries Field} {members : Entries Json}
    {doc : Document} (h : decodeFields path fields members = .ok doc) : doc.keys = fields.keys := by
  induction fields generalizing doc with
  | nil =>
    obtain rfl := Except.ok.inj h
    rfl
  | cons first rest ih =>
    obtain ⟨name, kind, optional, sortable, indexed, default⟩ := first
    obtain ⟨v, others, _, hothers, rfl⟩ := decodeFields_cons h
    exact congrArg (name :: ·) (ih hothers)

/-- What writing the first field of a level adds to the others. -/
theorem encodeFields_cons {path name : String} {field : Field} {rest : Entries Field}
    {doc : Document} {inside : Entries Json}
    (h : encodeFields path ((name, field) :: rest) doc = .ok inside) :
    effective doc name field.default = none ∧ encodeFields path rest doc = .ok inside ∨
      ∃ v json others, effective doc name field.default = some v ∧
        encodeKind (below path name) field.kind v = .ok json ∧
          encodeFields path rest doc = .ok others ∧ inside = (name, json) :: others := by
  obtain ⟨kind, optional, sortable, indexed, default⟩ := field
  rw [encodeFields] at h
  cases heffective : effective doc name default with
  | none =>
    rw [heffective] at h
    exact Or.inl ⟨heffective, h⟩
  | some v =>
    rw [heffective] at h
    obtain ⟨json, hjson, h⟩ := bind_eq_ok.1 h
    obtain ⟨others, hothers, h⟩ := bind_eq_ok.1 h
    exact Or.inr ⟨v, json, others, heffective, hjson, hothers, (pure_eq_ok.1 h).symm⟩

/-- The fields that are written are those with a value of their own or a default. -/
theorem keys_encodeFields_eq {path : String} {fields : Entries Field} {doc : Document}
    {inside : Entries Json} (h : encodeFields path fields doc = .ok inside) :
    inside.keys =
      Entries.keys (fields.filter fun e => (effective doc e.1 e.2.default).isSome) := by
  induction fields generalizing inside with
  | nil =>
    obtain rfl := Except.ok.inj h
    rfl
  | cons first rest ih =>
    obtain ⟨name, field⟩ := first
    rcases encodeFields_cons h with ⟨hnone, hrest⟩ | ⟨v, json, others, hsome, _, hothers, rfl⟩
    · rw [List.filter_cons, hnone]
      exact ih hrest
    · rw [List.filter_cons, hsome]
      exact congrArg (name :: ·) (ih hothers)

/-- Only fields are written, each at most once and in the order of the fields. -/
theorem keys_encodeFields {path : String} {fields : Entries Field} {doc : Document}
    {inside : Entries Json} (h : encodeFields path fields doc = .ok inside) :
    inside.keys.Sublist fields.keys := by
  rw [keys_encodeFields_eq h]
  exact (List.filter_sublist).map _

/-- The tree of a member is that of its value, and there is none without a value. -/
theorem get?_encodeFields {path : String} {fields : Entries Field} (hfields : fields.Ordered)
    {doc : Document} {inside : Entries Json} (h : encodeFields path fields doc = .ok inside)
    {name : String} {field : Field} (hget : fields.get? name = some field) :
    (effective doc name field.default = none ∧ inside.get? name = none) ∨
      ∃ v json, effective doc name field.default = some v ∧ inside.get? name = some json ∧
        encodeKind (below path name) field.kind v = .ok json := by
  induction fields generalizing inside with
  | nil => cases hget
  | cons first rest ih =>
    obtain ⟨key, found⟩ := first
    -- The later fields have other names, so what is written for them is at other keys.
    have habsent : ∀ {others : Entries Json}, encodeFields path rest doc = .ok others →
        key = name → others.get? name = none := by
      rintro others hothers rfl
      refine Entries.get?_eq_none_iff.2 ?_
      intro e he heq
      have hmem : e.1 ∈ Entries.keys rest :=
        (keys_encodeFields hothers).mem (List.mem_map_of_mem he)
      have hcontains := Entries.contains_of_mem_keys hmem
      rw [heq, Entries.contains, hfields.get?_tail] at hcontains
      cases hcontains
    rw [Entries.get?] at hget
    rcases encodeFields_cons h with ⟨hnone, hrest⟩ | ⟨v, json, others, hsome, hjson, hothers, rfl⟩
    · by_cases hkey : key = name
      · rw [if_pos hkey] at hget
        obtain rfl := Option.some.inj hget
        rw [hkey] at hnone
        exact Or.inl ⟨hnone, habsent hrest hkey⟩
      · rw [if_neg hkey] at hget
        exact ih hfields.tail hrest hget
    · by_cases hkey : key = name
      · rw [if_pos hkey] at hget
        obtain rfl := Option.some.inj hget
        subst hkey
        exact Or.inr ⟨v, json, hsome, by rw [Entries.get?, if_pos rfl], hjson⟩
      · rw [if_neg hkey] at hget
        rw [Entries.get?, if_neg hkey]
        exact ih hfields.tail hothers hget

/-- What no field describes does not stand in the way of a field. -/
theorem get?_encodeMembers {fields : Entries Field} {skip : String → Bool}
    {write : Document → Except EncodeError (Entries Json)} {doc : Document}
    {members : Entries Json} (h : encodeMembers fields skip write doc = .ok members) {name : String}
    (hname : fields.contains name = true) :
    ∃ inside, write doc = .ok inside ∧ members.get? name = inside.get? name := by
  obtain ⟨inside, hinside, h⟩ := bind_eq_ok.1 h
  obtain rfl := pure_eq_ok.1 h
  refine ⟨inside, hinside, Entries.get?_insertAll_of_absent _ ?_⟩
  rw [Value.membersToJson_eq, Entries.get?_mapValues,
    Entries.get?_filter (fun key => !skip key), get?_undescribed, hname]
  simp

/-- A field of a level stands where its name does, beside what no field describes. -/
theorem get?_encodeLevel {path : String} {fields : Entries Field} (hfields : fields.Ordered)
    {skip : String → Bool} {doc : Document} {members : Entries Json}
    (h : encodeMembers fields skip (fun doc => encodeFields path fields doc) doc = .ok members)
    {name : String} {field : Field} (hget : fields.get? name = some field) :
    (effective doc name field.default = none ∧ members.get? name = none) ∨
      ∃ v json, effective doc name field.default = some v ∧ members.get? name = some json ∧
        encodeKind (below path name) field.kind v = .ok json := by
  have hname : fields.contains name = true := by rw [Entries.contains, hget, Option.isSome_some]
  obtain ⟨inside, hinside, hmember⟩ := get?_encodeMembers h hname
  rw [hmember]
  exact get?_encodeFields hfields hinside hget

/-- An object is written as null if it is null, and as the members of its level otherwise. -/
theorem encodeKind_object {path : String} {fields : Entries Field} {v : Value} {json : Json}
    (h : encodeKind path (.object fields) v = .ok json) :
    (v = .null ∧ json = .null) ∨
      ∃ doc members, v = .object doc ∧ json = .object members ∧
        encodeMembers fields skipNone (fun doc => encodeFields path fields doc) doc =
          .ok members := by
  cases v with
  | null =>
    obtain rfl := Except.ok.inj h
    exact Or.inl ⟨rfl, rfl⟩
  | object doc =>
    obtain ⟨members, hmembers, rfl⟩ := map_eq_ok.1 h
    exact Or.inr ⟨doc, members, rfl, rfl, hmembers⟩
  | _ => cases h

/-- The trees of the positions of a tuple stand where the positions do. -/
theorem getElem?_encodePositions {path : String} {start : Nat} {positions : List Element}
    {vs : List Value} {jsons : List Json} (h : encodePositions path start positions vs = .ok jsons)
    (hlength : vs.length = positions.length) {index : Nat} {element : Element}
    (hget : positions[index]? = some element) :
    ∃ v json, vs[index]? = some v ∧ jsons[index]? = some json ∧
      encodeElement (itemPath path (start + index)) element v = .ok json := by
  induction positions generalizing start vs jsons index with
  | nil => cases hget
  | cons first rest ih =>
    cases vs with
    | nil => cases hlength
    | cons v vs =>
      obtain ⟨json, hjson, h⟩ := bind_eq_ok.1 h
      obtain ⟨others, hothers, h⟩ := bind_eq_ok.1 h
      obtain rfl := pure_eq_ok.1 h
      cases index with
      | zero =>
        obtain rfl := Option.some.inj hget
        exact ⟨v, json, rfl, rfl, hjson⟩
      | succ index =>
        rw [← Nat.add_assoc, Nat.add_right_comm]
        exact ih hothers (Nat.succ.inj hlength) hget

/-- A tuple is written as null if it is null, and position by position otherwise. -/
theorem encodeKind_tuple {path : String} {positions : List Element} {v : Value} {json : Json}
    (h : encodeKind path (.tuple positions) v = .ok json) {index : Nat} {element : Element}
    (hget : positions[index]? = some element) :
    (v = .null ∧ json = .null) ∨
      ∃ vs jsons w inner, v = .array vs ∧ json = .array jsons ∧ vs[index]? = some w ∧
        jsons[index]? = some inner ∧ encodeElement (itemPath path index) element w = .ok inner := by
  cases v with
  | null =>
    obtain rfl := Except.ok.inj h
    exact Or.inl ⟨rfl, rfl⟩
  | array vs =>
    obtain ⟨ws, hws, h⟩ := bind_eq_ok.1 h
    obtain rfl := Admission.items_eq_ok hws
    split at h
    · cases h
    · rename_i hlength
      obtain ⟨jsons, hjsons, h⟩ := bind_eq_ok.1 h
      obtain rfl := pure_eq_ok.1 h
      obtain ⟨w, inner, hw, hinner, hwrites⟩ :=
        getElem?_encodePositions hjsons (Decidable.not_not.1 hlength) hget
      rw [Nat.zero_add] at hwrites
      exact Or.inr ⟨vs, jsons, w, inner, rfl, rfl, hw, hinner, hwrites⟩
  | _ => cases h

end Tree

namespace Schema

variable {schema : Schema} {doc : Document}

/-- The document of a hash has the keys of the fields and all keys of the hash. -/
theorem contains_decodeHash {hash : Entries String} (h : schema.decodeHash hash = .ok doc)
    (name : String) : doc.contains name = (schema.fields.contains name || hash.contains name) := by
  obtain ⟨described, hdescribed, h⟩ := bind_eq_ok.1 h
  obtain rfl := pure_eq_ok.1 h
  have hfields := Entries.contains_eq_of_keys (Hash.keys_decodeFields hdescribed) name
  have hothers : Entries.contains ((undescribed schema.fields hash).mapValues Value.string) name =
      (!schema.fields.contains name && hash.contains name) := by
    rw [← contains_undescribed, Entries.contains, Entries.get?_mapValues, Option.isSome_map]
    rfl
  rw [Entries.contains_insertAll, hothers, hfields]
  cases schema.fields.contains name <;> simp

/-- The document of a tree has the keys of the fields and the keys of the tree except links. -/
theorem contains_decodeTree {members : Entries Json}
    (h : schema.decodeTree (.object members) = .ok doc) (name : String) :
    doc.contains name =
      (schema.fields.contains name || (members.contains name && !schema.isLink name)) := by
  obtain ⟨described, hdescribed, h⟩ := bind_eq_ok.1 h
  obtain rfl := pure_eq_ok.1 h
  have hfields := Entries.contains_eq_of_keys (Tree.keys_decodeFields hdescribed) name
  have hothers : Entries.contains (Value.membersOfJson
      ((undescribed schema.fields members).filter fun e => !schema.isLink e.1)) name =
        (!schema.isLink name && (!schema.fields.contains name && members.contains name)) := by
    rw [← contains_undescribed, Value.membersOfJson_eq, Entries.contains, Entries.get?_mapValues,
      Option.isSome_map, Entries.get?_filter fun key => !schema.isLink key]
    cases schema.isLink name <;> simp [Entries.contains]
  rw [Entries.contains_insertAll, hothers, hfields]
  cases schema.fields.contains name <;> simp [Bool.and_comm]

/-- A document that was read from a tree has the keys of the fields and of the tree except links.
One that was read from a hash has all keys of the hash, links included; it is free of links exactly
if the hash is. -/
theorem decoded_keys_iff {schema : Schema} (hschema : schema.IsCanonical) :
    (∀ {members : Entries Json} {doc : Document},
      schema.decodeTree (.object members) = .ok doc → schema.HasKeysOf members doc) ∧
    ∀ {hash : Entries String} {doc : Document}, schema.decodeHash hash = .ok doc →
      (∀ name, doc.contains name = true ↔
        schema.fields.contains name = true ∨ hash.contains name = true) ∧
      (schema.HasKeysOf hash doc ↔
        ∀ name, schema.isLink name = true → hash.contains name = false) := by
  constructor
  · intro members doc hread name
    simp [contains_decodeTree hread name]
  · intro hash doc hread
    have hkeys : ∀ name, doc.contains name = true ↔
        schema.fields.contains name = true ∨ hash.contains name = true := by
      intro name
      simp [contains_decodeHash hread name]
    refine ⟨hkeys, ?_, ?_⟩
    · intro hlaw name hlink
      have hfield : schema.fields.contains name = false := by
        by_contra hfield
        have hapart := hschema.sound.apart name (by simpa using hfield)
        simp [Schema.isLink, hapart] at hlink
      by_contra hname
      have hdoc : doc.contains name = true := (hkeys name).2 (Or.inr (by simpa using hname))
      have hcases := (hlaw name).1 hdoc
      simp [hfield, hlink] at hcases
    · intro hlinks name
      rw [hkeys name]
      refine or_congr_right ⟨?_, fun h => h.1⟩
      intro hname
      refine ⟨hname, ?_⟩
      by_contra hlink
      have hnone := hlinks name (by simpa using hlink)
      rw [hnone] at hname
      contradiction

/-! ## A badge -/

/-- A text and a reference. -/
def badgeDeclarations : Declarations :=
  [("label", .shorthand "string"),
    ("owner", .full { kind := "reference", target := some "Person" } none none none)]

/-- The schema that a badge is declared with. -/
def badgeSchema : Schema where
  fields := [("label", .ofKind (.string ',' false))]
  references := [("owner", ⟨.named "Person", false⟩)]
  relations := []
  warnings := []

/-- The schema of badges comes from its declarations. -/
theorem badgeSchema_isCanonical : badgeSchema.IsCanonical := by
  refine ⟨badgeDeclarations, ⟨by decide, ?_⟩, rfl⟩
  simp [badgeDeclarations, declarationsSatisfy, Declaration.Satisfies, declarationsSatisfy?,
    elementsSatisfy?, Attributes.WellFormed]

/-- A tree with an owner, and a hash without one. -/
theorem decoded_keys_iff_badge :
    badgeSchema.IsCanonical ∧
      badgeSchema.decodeTree (.object [("owner", .string "7"), ("seen", .bool true)]) =
        .ok [("label", .null), ("seen", .bool true)] ∧
      badgeSchema.HasKeysOf [("owner", Json.string "7"), ("seen", .bool true)]
        [("label", .null), ("seen", .bool true)] ∧
      badgeSchema.decodeHash [("seen", "1")] = .ok [("label", .null), ("seen", .string "1")] ∧
      badgeSchema.HasKeysOf [("seen", "1")] [("label", .null), ("seen", .string "1")] := by
  have htree : badgeSchema.decodeTree (.object [("owner", .string "7"), ("seen", .bool true)]) =
      .ok [("label", .null), ("seen", .bool true)] := rfl
  have hhash : badgeSchema.decodeHash [("seen", "1")] =
      .ok [("label", .null), ("seen", .string "1")] := rfl
  have hlinks : ∀ name, badgeSchema.isLink name = true →
      Entries.contains [("seen", "1")] name = false := by
    intro name hlink
    by_cases hname : name = "seen"
    · subst hname
      contradiction
    · simp [Entries.contains, Entries.get?, Ne.symm hname]
  exact ⟨badgeSchema_isCanonical, htree, (decoded_keys_iff badgeSchema_isCanonical).1 htree, hhash,
    ((decoded_keys_iff badgeSchema_isCanonical).2 hhash).2.2 hlinks⟩

/-- A hash with an owner is read with the owner. -/
theorem decodeHash_keeps_link :
    badgeSchema.IsCanonical ∧
      badgeSchema.decodeHash [("label", "a"), ("owner", "7")] =
        .ok [("label", .string "a"), ("owner", .string "7")] ∧
      ¬badgeSchema.HasKeysOf [("label", "a"), ("owner", "7")]
        [("label", .string "a"), ("owner", .string "7")] := by
  refine ⟨badgeSchema_isCanonical, rfl, ?_⟩
  intro hlaw
  have hcases := (hlaw "owner").1 rfl
  simp [badgeSchema, Schema.isLink, Entries.contains, Entries.get?] at hcases

end Schema

end DocumentSchema
