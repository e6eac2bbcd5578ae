import DocumentSchema.Declaration.Reader
import DocumentSchema.Declaration.Writer
import DocumentSchema.Proofs.Declaration.WellFormed
import DocumentSchema.Proofs.Entries
import DocumentSchema.Proofs.Value.Plain

/-!
# Declarations read back from their trees

The tree of a declaration is a table of the options that are given. Every option is read from its
own member, so the table is read back option by option (`read?_members`), and the options that hold
declarations by recursion (`ofJson?_toJson`).
-/

set_option autoImplicit false

namespace DocumentSchema

/-! ## Tables of options -/

/-- A name has a value among the members that are given exactly if it was given one. -/
theorem get?_filterMap {α : Type} {members : Entries (Option α)} (h : members.Distinct)
    (name : String) :
    Entries.get? (members.filterMap fun e => e.2.map fun a => (e.1, a)) name =
      (members.get? name).join := by
  induction members with
  | nil => rfl
  | cons first rest ih =>
    obtain ⟨key, value⟩ := first
    obtain ⟨apart, distinct⟩ := List.pairwise_cons.1 h
    rw [List.filterMap_cons, Entries.get?]
    by_cases hkey : key = name
    · have hnone : Entries.get? rest name = none := Entries.get?_eq_none_iff.2 fun e he heq =>
        apart e he (hkey.trans heq.symm)
      rw [if_pos hkey]
      cases value with
      | none =>
        show Entries.get? (rest.filterMap _) name = _
        rw [ih distinct, hnone]
        rfl
      | some a =>
        show Entries.get? ((key, a) :: rest.filterMap _) name = _
        rw [Entries.get?, if_pos hkey]
        rfl
    · rw [if_neg hkey, ← ih distinct]
      cases value with
      | none => rfl
      | some a =>
        show Entries.get? ((key, a) :: rest.filterMap _) name = _
        rw [Entries.get?, if_neg hkey]

/-- The members that are given have the distinct names that all members have. -/
theorem distinct_filterMap {α : Type} {members : Entries (Option α)} (h : members.Distinct) :
    Entries.Distinct (members.filterMap fun e => e.2.map fun a => (e.1, a)) := by
  refine List.Pairwise.filterMap _ ?_ h
  intro a b hab c hc d hd
  obtain ⟨x, _, rfl⟩ := Option.map_eq_some_iff.1 hc
  obtain ⟨y, _, rfl⟩ := Option.map_eq_some_iff.1 hd
  exact hab

/-- The table of given options has a member for each option that is given. -/
theorem get?_givenMembers {members : List (String × Option Json)} (h : Entries.Distinct members)
    (name : String) : (givenMembers members).get? name = (Entries.get? members name).join := by
  rw [givenMembers, Entries.ofList, Entries.get?_insertAll _ (distinct_filterMap h),
    get?_filterMap h, Entries.get?_nil, Option.or_none]

/-- The members that are given are written in the order of their names. -/
theorem ordered_givenMembers (members : List (String × Option Json)) :
    (givenMembers members).Ordered :=
  Entries.Ordered.nil.insertAll _

/-! ## Options without declarations inside -/

/-- An option that is given is read back if its tree is not null. -/
theorem readOption?_map {α : Type} {read : Json → Option α} {write : α → Json} {o : Option α}
    (h : ∀ a, o = some a → write a ≠ .null ∧ read (write a) = some a) :
    readOption? read (o.map write) = some o := by
  cases o with
  | none => rfl
  | some a =>
    obtain ⟨hnull, hread⟩ := h a rfl
    rw [Option.map_some]
    unfold readOption?
    split
    · rename_i heq
      cases heq
    · rename_i heq
      exact absurd (Option.some.inj heq) hnull
    · rename_i heq
      rw [← Option.some.inj heq, hread]
      rfl

/-- A text, or none, is read back as an option. -/
theorem readOption?_texts (o : Option String) :
    readOption? Json.toText? (o.map .string) = some o :=
  readOption?_map fun s _ => ⟨by rintro ⟨⟩, rfl⟩

/-- A flag, or none, is read back as an option. -/
theorem readOption?_flags (o : Option Bool) : readOption? Json.toBool? (o.map .bool) = some o :=
  readOption?_map fun b _ => ⟨by rintro ⟨⟩, rfl⟩

/-- A list of items, or none, is read back as an option. -/
theorem readOption?_items (o : Option (List Json)) :
    readOption? Json.toItems? (o.map .array) = some o :=
  readOption?_map fun items _ => ⟨by rintro ⟨⟩, rfl⟩

/-- An integer is read as a word exactly if it is one of 32 bits. -/
theorem readWord?_integer (i : Int) (lower : -9223372036854775808 ≤ i)
    (upper : i < 18446744073709551616) : readWord? (.number (.integer i lower upper)) =
      if 0 ≤ i ∧ i < 4294967296 then some (UInt32.ofNat i.toNat) else none :=
  rfl

/-- A word is read back. -/
theorem readWord?_ofWord (w : UInt32) : readWord? (.ofWord w) = some w := by
  have hrange : 0 ≤ (w.toNat : Int) ∧ (w.toNat : Int) < 4294967296 := by
    have hword := w.toNat_lt
    omega
  unfold Json.ofWord
  rw [readWord?_integer, if_pos hrange, Int.toNat_natCast, UInt32.ofNat_toNat]

/-- A word, or none, is read back as an option. -/
theorem readOption?_words (o : Option UInt32) : readOption? readWord? (o.map .ofWord) = some o :=
  readOption?_map fun w _ => ⟨by rintro ⟨⟩, readWord?_ofWord w⟩

/-- A finite number, or none, is read back as an option. -/
theorem readOption?_numbers {o : Option Binary64} (h : ∀ x, o = some x → x.isFinite = true) :
    readOption? Json.toBinary? (o.map .ofBinary) = some o := by
  refine readOption?_map fun x hx => ?_
  obtain ⟨y, rfl⟩ := Floating.exists_of_isFinite (h x hx)
  exact ⟨by rintro ⟨⟩, rfl⟩

/-- A default that is not null is read back. -/
theorem readOption?_default {o : Option Json} (h : o ≠ some .null) :
    readOption? some o = some o := by
  unfold readOption?
  split
  · rfl
  · exact absurd rfl h
  · rfl

/-- The options of a declaration by name, those with declarations inside last. -/
def optionTable (a : Attributes) (elements properties edge : Option Json) :
    List (String × Option Json) :=
  a.members ++ [("elements", elements), ("properties", properties), ("meta", edge)]

/-- No two options of a declaration have one name. -/
theorem distinct_optionTable (a : Attributes) (elements properties edge : Option Json) :
    Entries.Distinct (optionTable a elements properties edge) := by
  have hkeys : (Entries.keys (optionTable a elements properties edge)).Nodup := by
    show List.Nodup ["type", "optional", "sortable", "index", "default", "separator",
      "caseSensitive", "weight", "phonetic", "literal", "algorithm", "vectorType", "dimension",
      "distance", "initialCap", "blockSize", "m", "efConstruction", "efRuntime", "epsilon", "schema",
      "elements", "properties", "meta"]
    decide
  exact List.pairwise_map.1 hkeys

/-- The options without declarations inside are read back wherever their values are found. -/
theorem read?_members {a : Attributes} (ha : a.Portable) {option : String → Option Json}
    (h : ∀ e ∈ a.members, option e.1 = e.2) : Attributes.read? option = some a := by
  simp only [Attributes.members, List.forall_mem_cons] at h
  obtain ⟨hkind, hoptional, hsortable, hindexed, hdefault, hseparator, hcase, hweight, hphonetic,
    hliterals, halgorithm, hcomponent, hdimension, hmetric, hcap, hblock, hm, hconstruction, hruntime,
    hepsilon, htarget, _⟩ := h
  rw [Attributes.read?, hkind, hoptional, hsortable, hindexed, hdefault, hseparator, hcase, hweight,
    hphonetic, hliterals, halgorithm, hcomponent, hdimension, hmetric, hcap, hblock, hm,
    hconstruction, hruntime, hepsilon, htarget]
  simp only [Option.bind_eq_bind, Option.bind_some, Json.toText?, readOption?_flags,
    readOption?_default ha.default_ne_null, readOption?_texts, readOption?_items, readOption?_words,
    readOption?_numbers ha.weight_finite, readOption?_numbers ha.epsilon_finite]
  rfl

/-! ## Options with declarations inside -/

/-- Reads an option with declarations inside, if it is there. -/
def readNested? {α : Type} (read : Json → Option (Option α)) : Option Json → Option (Option α)
  | none => some none
  | some json => read json

/-- A table has the options with declarations inside that its members give. -/
theorem nestedOptionsIn?_eq {members : Entries Json} (h : members.Distinct)
    {elements : Option Elements} {properties edge : Option Declarations}
    (helements : readNested? elementsOfJson? (members.get? "elements") = some elements)
    (hproperties : readNested? propertiesOfJson? (members.get? "properties") = some properties)
    (hedge : readNested? propertiesOfJson? (members.get? "meta") = some edge) :
    nestedOptionsIn? members = some ⟨elements, properties, edge⟩ := by
  induction members generalizing elements properties edge with
  | nil =>
    obtain rfl := Option.some.inj helements
    obtain rfl := Option.some.inj hproperties
    obtain rfl := Option.some.inj hedge
    rfl
  | cons first rest ih =>
    obtain ⟨name, json⟩ := first
    obtain ⟨apart, distinct⟩ := List.pairwise_cons.1 h
    -- names are distinct, so an option found here is not found again in the rest
    have habsent : Entries.get? rest name = none :=
      Entries.get?_eq_none_iff.2 fun e he heq => apart e he heq.symm
    rw [Entries.get?] at helements hproperties hedge
    rw [nestedOptionsIn?]
    by_cases h1 : name = "elements"
    · subst h1
      rw [if_pos rfl] at helements
      rw [if_neg (by decide)] at hproperties hedge
      have hrest : readNested? elementsOfJson? (Entries.get? rest "elements") = some none := by
        rw [habsent]
        rfl
      have helements : elementsOfJson? json = some elements := helements
      rw [ih distinct hrest hproperties hedge, Option.bind_eq_bind, Option.bind_some, if_pos rfl,
        helements]
      rfl
    · rw [if_neg h1] at helements
      by_cases h2 : name = "properties"
      · subst h2
        rw [if_pos rfl] at hproperties
        rw [if_neg (by decide)] at hedge
        have hrest : readNested? propertiesOfJson? (Entries.get? rest "properties") = some none := by
          rw [habsent]
          rfl
        have hproperties : propertiesOfJson? json = some properties := hproperties
        rw [ih distinct helements hrest hedge, Option.bind_eq_bind, Option.bind_some, if_neg h1,
          if_pos rfl, hproperties]
        rfl
      · rw [if_neg h2] at hproperties
        by_cases h3 : name = "meta"
        · subst h3
          rw [if_pos rfl] at hedge
          have hrest : readNested? propertiesOfJson? (Entries.get? rest "meta") = some none := by
            rw [habsent]
            rfl
          have hedge : propertiesOfJson? json = some edge := hedge
          rw [ih distinct helements hproperties hrest, Option.bind_eq_bind, Option.bind_some,
            if_neg h1, if_neg h2, if_pos rfl, hedge]
          rfl
        · rw [if_neg h3] at hedge
          rw [ih distinct helements hproperties hedge, Option.bind_eq_bind, Option.bind_some,
            if_neg h1, if_neg h2, if_neg h3]
          rfl

/-- A table of options is read as the declaration with the options that it gives. -/
theorem ofJson?_givenMembers {a : Attributes} (ha : a.Portable) {elements properties edge : Option Json}
    {readElements : Option Elements} {readProperties readEdge : Option Declarations}
    (helements : readNested? elementsOfJson? elements = some readElements)
    (hproperties : readNested? propertiesOfJson? properties = some readProperties)
    (hedge : readNested? propertiesOfJson? edge = some readEdge) :
    Declaration.ofJson? (.object (givenMembers (optionTable a elements properties edge))) =
      some (.full a readElements readProperties readEdge) := by
  have hdistinct := distinct_optionTable a elements properties edge
  have hget : ∀ e ∈ optionTable a elements properties edge,
      (givenMembers (optionTable a elements properties edge)).get? e.1 = e.2 := by
    intro e he
    rw [get?_givenMembers hdistinct, hdistinct.get?_of_mem he]
    rfl
  -- nothing is ever written under the other name of the index option
  have halias : (givenMembers (optionTable a elements properties edge)).get? indexAlias = none := by
    rw [get?_givenMembers hdistinct, Entries.get?_eq_none_iff.2]
    · rfl
    · show ∀ e ∈ optionTable a elements properties edge, e.1 ≠ "indexed"
      simp [optionTable, Attributes.members]
  have hnested : ∀ e ∈ [("elements", elements), ("properties", properties), ("meta", edge)],
      (givenMembers (optionTable a elements properties edge)).get? e.1 = e.2 :=
    fun e he => hget e (List.mem_append_right _ he)
  simp only [List.forall_mem_cons] at hnested
  obtain ⟨hgetElements, hgetProperties, hgetEdge, _⟩ := hnested
  have hoptions : Attributes.read? (optionIn (givenMembers (optionTable a elements properties edge))) =
      some a := by
    refine read?_members ha fun e he => ?_
    rw [optionIn, hget e (List.mem_append_left _ he)]
    cases hvalue : e.2 with
    | some json => rfl
    | none => simp only [halias, ite_self]
  rw [Declaration.ofJson?, Entries.contains, Entries.contains, halias, Option.isSome_none,
    Bool.and_false, if_neg Bool.false_ne_true, hoptions,
    nestedOptionsIn?_eq (ordered_givenMembers _).distinct (hgetElements ▸ helements)
      (hgetProperties ▸ hproperties) (hgetEdge ▸ hedge)]
  rfl

mutual

/-- A declaration that a tree can hold is read back from its tree. -/
theorem Declaration.ofJson?_toJson (d : Declaration) (h : d.Satisfies Attributes.Portable) :
    Declaration.ofJson? d.toJson = some d := by
  cases d with
  | shorthand kind => rfl
  | full a elements properties edge =>
    obtain ⟨ha, helements, hproperties, hedge⟩ := h
    exact ofJson?_givenMembers ha (readNested?_elements elements helements)
      (readNested?_properties properties hproperties) (readNested?_properties edge hedge)
termination_by structural d

/-- The elements of an array, or none, are read back as an option. -/
theorem readNested?_elements (elements : Option Elements)
    (h : elementsSatisfy? Attributes.Portable elements) :
    readNested? elementsOfJson? (elementsToJson? elements) = some elements := by
  cases elements with
  | none => rfl
  | some elements => exact elementsOfJson?_toJson elements h
termination_by structural elements

/-- The elements of an array are read back from their tree. -/
theorem elementsOfJson?_toJson (elements : Elements) (h : elements.Satisfy Attributes.Portable) :
    elementsOfJson? elements.toJson = some (some elements) := by
  cases elements with
  | kind name => rfl
  | fields fields =>
    rw [Elements.toJson, elementsOfJson?, declarationsOfMembers?_toMembers fields h.2]
    rfl
  | positions positions =>
    rw [Elements.toJson, elementsOfJson?, positionsOfItems?_toItems positions h.2]
    rfl
termination_by structural elements

/-- The properties of an object, or none, are read back as an option. -/
theorem readNested?_properties (properties : Option (List (String × Declaration)))
    (h : declarationsSatisfy? Attributes.Portable properties) :
    readNested? propertiesOfJson? (propertiesToJson? properties) = some properties := by
  cases properties with
  | none => rfl
  | some fields =>
    rw [propertiesToJson?, readNested?, propertiesOfJson?,
      declarationsOfMembers?_toMembers fields h.2]
    rfl
termination_by structural properties

/-- Declarations that a tree can hold are read back from its members. -/
theorem declarationsOfMembers?_toMembers (declarations : List (String × Declaration))
    (h : declarationsSatisfy Attributes.Portable declarations) :
    declarationsOfMembers? (declarationsToMembers declarations) = some declarations := by
  cases declarations with
  | nil => rfl
  | cons first rest =>
    obtain ⟨name, declaration⟩ := first
    rw [declarationsToMembers, declarationsOfMembers?, Declaration.ofJson?_toJson declaration h.1,
      declarationsOfMembers?_toMembers rest h.2]
    rfl
termination_by structural declarations

/-- The positions of a tuple are read back one by one. -/
theorem positionsOfItems?_toItems (positions : List Position)
    (h : positionsSatisfy Attributes.Portable positions) :
    positionsOfItems? (positionsToItems positions) = some positions := by
  cases positions with
  | nil => rfl
  | cons position rest =>
    rw [positionsToItems, positionsOfItems?, positionOfJson?_toJson position h.1,
      positionsOfItems?_toItems rest h.2]
    rfl
termination_by structural positions

/-- A position of a tuple is read back from its tree. -/
theorem positionOfJson?_toJson (position : Position) (h : position.Satisfies Attributes.Portable) :
    positionOfJson? position.toJson = some position := by
  cases position with
  | kind name => rfl
  | fields fields =>
    rw [Position.toJson, positionOfJson?, declarationsOfMembers?_toMembers fields h.2]
    rfl
termination_by structural position

end

end DocumentSchema
