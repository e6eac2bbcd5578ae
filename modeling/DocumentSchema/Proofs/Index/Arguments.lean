import DocumentSchema.Index.Definition
import DocumentSchema.Proofs.Entries
import DocumentSchema.Proofs.Floating.Text
import DocumentSchema.Proofs.Schema.Resolved
import DocumentSchema.Store.Search

/-!
# Keywords among the arguments of an index

A store looks for the key start of an index behind the first argument that is the keyword `PREFIX`
in any case, and the arguments list the names of all fields too. What else stands among them is
never the keyword and never empty (`Silent`): attributes, numbers, separators and paths in trees. So
the scan stops at the first field that has the keyword as its name, and finds no key start there
only if hardly anything follows that name (`argumentAfter?_fields`).
-/

set_option autoImplicit false

namespace DocumentSchema

open Store (isKeyword argumentAfter?)

/-! ## Scanning -/

/-- A text is the keyword exactly if it is, letter by letter, in capitals. -/
theorem isKeyword_iff {keyword text : String} : isKeyword keyword text = true ↔
    text.toList.map Char.toUpper = keyword.toList.map Char.toUpper := by
  rw [isKeyword, decide_eq_true_iff, String.toUpper, String.toUpper, ← String.toList_inj,
    String.toList_map, String.toList_map]

/-- A keyword is itself. -/
theorem isKeyword_self (keyword : String) : isKeyword keyword keyword = true :=
  decide_eq_true rfl

/-- A scan passes over arguments that are not the keyword. -/
theorem argumentAfter?_append {keyword : String} {front : List String}
    (hfront : ∀ a ∈ front, isKeyword keyword a = false) (rest : List String) (skipped : Nat) :
    argumentAfter? (front ++ rest) keyword skipped = argumentAfter? rest keyword skipped := by
  have hnone : front.findIdx? (isKeyword keyword) = none := List.findIdx?_eq_none_iff.2 hfront
  unfold argumentAfter?
  rw [List.findIdx?_append, hnone, Option.none_or]
  cases rest.findIdx? (isKeyword keyword) with
  | none => rfl
  | some i =>
    show (front ++ rest)[i + front.length + 1 + skipped]? = rest[i + 1 + skipped]?
    rw [List.getElem?_append_right (by omega)]
    congr 1
    omega

/-- A scan stops at an argument that is the keyword. -/
theorem argumentAfter?_keyword {keyword a : String} (ha : isKeyword keyword a = true)
    (rest : List String) (skipped : Nat) :
    argumentAfter? (a :: rest) keyword skipped = rest[skipped]? := by
  unfold argumentAfter?
  rw [List.findIdx?_cons, ha]
  show (a :: rest)[0 + 1 + skipped]? = rest[skipped]?
  rw [show 0 + 1 + skipped = skipped + 1 by omega, List.getElem?_cons_succ]

/-- A scan goes on past a text that is not its keyword. -/
theorem argumentAfter?_pass {keyword a : String} (ha : isKeyword keyword a = false)
    (rest : List String) (skipped : Nat) :
    argumentAfter? (a :: rest) keyword skipped = argumentAfter? rest keyword skipped := by
  have hfront : ∀ b ∈ [a], isKeyword keyword b = false := by
    intro b hb
    rw [List.mem_singleton.1 hb, ha]
  exact argumentAfter?_append hfront rest skipped

/-! ## Texts that a scan for the key start passes over -/

/-- A text that is not empty and not the keyword of the key start. -/
def Silent (text : String) : Prop := text ≠ "" ∧ isKeyword "PREFIX" text = false

instance (text : String) : Decidable (Silent text) := by
  unfold Silent
  infer_instance

/-- A text is not the keyword if its first character is neither case of a `P`. -/
theorem silent_of_head {text : String} {c : Char} {cs : List Char} (h : text.toList = c :: cs)
    (hc : c.toUpper ≠ 'P') : Silent text := by
  constructor
  · intro hempty
    rw [hempty] at h
    cases h
  · rw [← Bool.not_eq_true]
    intro hkeyword
    have hchars := isKeyword_iff.1 hkeyword
    rw [h] at hchars
    exact hc (List.cons.inj hchars).1

/-- No character of a number becomes the letter that the key start begins with. -/
theorem toUpper_of_isNumberChar {c : Char} (h : Decimal.isNumberChar c = true) :
    c.toUpper ≠ 'P' := by
  simp only [Decimal.isNumberChar, Bool.or_eq_true, decide_eq_true_eq] at h
  rcases h with (h | rfl) | rfl
  · unfold Decimal.Digit.ofChar? at h
    split at h
    · rename_i hdigit
      have hsmall : ¬ ('a'.val ≤ c.val ∧ c.val ≤ 'z'.val) := by
        intro hletter
        have hlow : 97 ≤ c.toNat := hletter.1
        omega
      have hupper : c.toUpper = c := dif_neg hsmall
      rw [hupper]
      rintro rfl
      exact absurd hdigit.2 (by decide)
    · cases h
  · decide
  · decide

/-- A text of the characters of numbers is not the keyword. -/
theorem silent_of_numberChars {text : String} (hne : text.toList ≠ [])
    (h : ∀ c ∈ text.toList, Decimal.isNumberChar c = true) : Silent text := by
  cases hchars : text.toList with
  | nil => exact absurd hchars hne
  | cons c cs =>
    have hc : Decimal.isNumberChar c = true := h c (hchars ▸ List.mem_cons_self)
    exact silent_of_head hchars (toUpper_of_isNumberChar hc)

/-- The token of a number is not the keyword. -/
theorem silent_token (x : Binary64) : Silent x.token := by
  cases x with
  | finite x => exact silent_of_numberChars (Floating.token_chars x).1 (Floating.token_chars x).2
  | infinite negative => cases negative <;> decide +kernel
  | nan negative => cases negative <;> decide +kernel

/-- The text of a natural number is not the keyword. -/
theorem silent_natText (n : Nat) : Silent (Decimal.natText n) := by
  refine silent_of_numberChars ?_ ?_
  · rw [ne_eq, String.toList_eq_nil_iff]
    exact Decimal.natText_ne_empty n
  · intro c hc
    obtain ⟨d, rfl⟩ := Decimal.exists_of_mem_natText hc
    exact Decimal.isNumberChar_toChar d

/-- A text of one character is too short for the keyword. -/
theorem silent_toString (c : Char) : Silent c.toString := by
  have hchars : (String.singleton c).toList = [c] := String.toList_singleton c
  show Silent (String.singleton c)
  constructor
  · intro hempty
    rw [hempty] at hchars
    cases hchars
  · rw [← Bool.not_eq_true]
    intro hkeyword
    have hlength := congrArg List.length (isKeyword_iff.1 hkeyword)
    rw [hchars, List.length_map, List.length_map, List.length_singleton] at hlength
    exact absurd hlength (by decide)

namespace Index

/-! ## Attributes -/

/-- Texts that a scan for the key start passes over, none of them empty. -/
def SilentAll (texts : List String) : Prop := ∀ text ∈ texts, Silent text

/-- A scan passes over texts with one more that is not the keyword. -/
theorem SilentAll.cons {text : String} {texts : List String} (h : Silent text)
    (hrest : SilentAll texts) : SilentAll (text :: texts) :=
  List.forall_mem_cons.2 ⟨h, hrest⟩

/-- A scan passes over texts and others after them. -/
theorem SilentAll.append {texts others : List String} (h : SilentAll texts)
    (hothers : SilentAll others) : SilentAll (texts ++ others) :=
  List.forall_mem_append.2 ⟨h, hothers⟩

/-- A scan passes over nothing. -/
theorem SilentAll.nil : SilentAll [] := fun _ h => absurd h List.not_mem_nil

/-- No family of index fields has the name of the keyword. -/
theorem silent_family (family : Query.Family) : Silent family.label := by
  cases family <;> decide +kernel

/-- The mark of a field that can be sorted by is not the keyword. -/
theorem silent_sortMark (sortable : Bool) : SilentAll (sortMark sortable) := by
  have hmark : Silent "SORTABLE" := by decide +kernel
  cases sortable with
  | true => exact SilentAll.nil.cons hmark
  | false => exact SilentAll.nil

/-- The mark of a field that heeds case is not the keyword. -/
theorem silent_caseMark (caseSensitive : Bool) : SilentAll (caseMark caseSensitive) := by
  have hmark : Silent "CASESENSITIVE" := by decide +kernel
  cases caseSensitive with
  | true => exact SilentAll.nil.cons hmark
  | false => exact SilentAll.nil

/-- The attributes of tags with a separator hold no keyword. -/
theorem silent_separatedTag (separator : Char) : SilentAll (separatedTag separator) := by
  have hword : Silent "SEPARATOR" := by decide +kernel
  exact ((SilentAll.nil.cons (silent_toString separator)).cons hword).cons
    (silent_family .tag)

/-- The attributes of a text hold no keyword. -/
theorem silent_textAttributes (weight : Binary64) (phonetic : Option Phonetic) :
    SilentAll (textAttributes weight phonetic) := by
  have hweight : Silent "WEIGHT" := by decide +kernel
  have hphonetic : Silent "PHONETIC" := by decide +kernel
  refine SilentAll.append (SilentAll.append (SilentAll.nil.cons (silent_family .text)) ?_) ?_
  · split
    · exact SilentAll.nil
    · exact (SilentAll.nil.cons (silent_token weight)).cons hweight
  · cases phonetic with
    | none => exact SilentAll.nil
    | some p =>
      have hlabel : Silent p.label := by cases p <;> decide +kernel
      exact (SilentAll.nil.cons hlabel).cons hphonetic

/-- An option of a vector and its value. -/
def SilentOption (e : String × String) : Prop := Silent e.1 ∧ Silent e.2

/-- The options of an algorithm hold no keyword. -/
theorem silent_algorithmOptions (algorithm : Algorithm) :
    ∀ e ∈ algorithmOptions algorithm, SilentOption e := by
  cases algorithm with
  | flat blockSize =>
    have hname : Silent "BLOCK_SIZE" := by decide +kernel
    exact List.forall_mem_singleton.2 ⟨hname, silent_natText _⟩
  | graph m efConstruction efRuntime epsilon =>
    have hm : Silent "M" := by decide +kernel
    have hconstruction : Silent "EF_CONSTRUCTION" := by decide +kernel
    have hruntime : Silent "EF_RUNTIME" := by decide +kernel
    have hepsilon : Silent "EPSILON" := by decide +kernel
    simp only [algorithmOptions, List.forall_mem_cons]
    exact ⟨⟨hm, silent_natText _⟩, ⟨hconstruction, silent_natText _⟩, ⟨hruntime, silent_natText _⟩,
      ⟨hepsilon, silent_token _⟩, fun _ h => absurd h List.not_mem_nil⟩

/-- The options of a vector hold no keyword. -/
theorem silent_vectorOptions (o : VectorOptions) : ∀ e ∈ vectorOptions o, SilentOption e := by
  have htype : Silent "TYPE" := by decide +kernel
  have hdimension : Silent "DIM" := by decide +kernel
  have hmetric : Silent "DISTANCE_METRIC" := by decide +kernel
  have hcap : Silent "INITIAL_CAP" := by decide +kernel
  have hcomponentLabel : Silent o.component.label := by cases o.component <;> decide +kernel
  have hmetricLabel : Silent o.metric.label := by cases o.metric <;> decide +kernel
  refine List.forall_mem_append.2 ⟨List.forall_mem_append.2 ⟨?_, ?_⟩,
    silent_algorithmOptions o.algorithm⟩
  · simp only [List.forall_mem_cons]
    exact ⟨⟨htype, hcomponentLabel⟩, ⟨hdimension, silent_natText _⟩, ⟨hmetric, hmetricLabel⟩,
      fun _ h => absurd h List.not_mem_nil⟩
  · cases o.initialCap with
    | none => exact fun _ h => absurd h List.not_mem_nil
    | some cap => exact List.forall_mem_singleton.2 ⟨hcap, silent_natText _⟩

/-- The attributes of a vector hold no keyword. -/
theorem silent_vectorAttributes (o : VectorOptions) : SilentAll (vectorAttributes o) := by
  have hflat : Silent "FLAT" := by decide +kernel
  have hgraph : Silent "HNSW" := by decide +kernel
  have halgorithm : Silent o.algorithm.label := by
    cases o.algorithm with
    | flat blockSize => exact hflat
    | graph m efConstruction efRuntime epsilon => exact hgraph
  refine SilentAll.append ((SilentAll.nil.cons (silent_natText _)).cons halgorithm |>.cons
    (silent_family .vector)) ?_
  intro text htext
  obtain ⟨e, he, htext⟩ := List.mem_flatMap.1 htext
  obtain ⟨hname, hvalue⟩ := silent_vectorOptions o e he
  have hpair : SilentAll [e.1, e.2] := (SilentAll.nil.cons hvalue).cons hname
  exact hpair text htext

/-- The attributes of a leaf are there, and a scan passes over them. -/
theorem silent_leafAttributes {sortable : Bool} {kind : Kind} {attributes : List String}
    (h : leafAttributes sortable kind = some attributes) :
    attributes ≠ [] ∧ SilentAll attributes := by
  have hsort := silent_sortMark sortable
  cases kind with
  | string separator caseSensitive =>
    obtain rfl := Option.some.inj h
    exact ⟨by simp [separatedTag],
      ((silent_separatedTag separator).append (silent_caseMark caseSensitive)).append hsort⟩
  | text weight phonetic =>
    obtain rfl := Option.some.inj h
    exact ⟨by simp [textAttributes], (silent_textAttributes weight phonetic).append hsort⟩
  | vector o =>
    obtain rfl := Option.some.inj h
    exact ⟨by simp [vectorAttributes], silent_vectorAttributes o⟩
  | number literals =>
    obtain rfl := Option.some.inj h
    exact ⟨List.cons_ne_nil _ _, hsort.cons (silent_family .numeric)⟩
  | date =>
    obtain rfl := Option.some.inj h
    exact ⟨List.cons_ne_nil _ _, hsort.cons (silent_family .numeric)⟩
  | bigInt literals =>
    obtain rfl := Option.some.inj h
    exact ⟨List.cons_ne_nil _ _, hsort.cons (silent_family .tag)⟩
  | boolean =>
    obtain rfl := Option.some.inj h
    exact ⟨List.cons_ne_nil _ _, hsort.cons (silent_family .tag)⟩
  | point =>
    obtain rfl := Option.some.inj h
    exact ⟨List.cons_ne_nil _ _, SilentAll.nil.cons (silent_family .geo)⟩
  | array element separator => cases h
  | tuple positions => cases h
  | object fields => cases h

/-- The attributes for the elements of an array are some, without the keyword. -/
theorem silent_elementAttributes (kind : Scalar) :
    elementAttributes kind ≠ [] ∧ SilentAll (elementAttributes kind) := by
  cases kind <;> exact ⟨List.cons_ne_nil _ _, SilentAll.nil.cons (silent_family _)⟩

/-- The attributes of a field of a hash are some, without the keyword. -/
theorem silent_hashAttributes {sortable : Bool} {kind : Kind} {attributes : List String}
    (h : hashAttributes sortable kind = some attributes) :
    attributes ≠ [] ∧ SilentAll attributes := by
  unfold hashAttributes at h
  split at h
  · obtain rfl := Option.some.inj h
    exact ⟨List.cons_ne_nil _ _, silent_separatedTag _⟩
  · exact silent_leafAttributes h

/-! ## Index fields -/

/-- An index field of which only the name may be the keyword or empty. -/
structure Regular (f : IndexField) : Prop where
  path : f.path = f.searchName ∨ Silent f.path
  attributes_ne : f.attributes ≠ []
  attributes : SilentAll f.attributes

/-- Every path in a tree starts at the root. -/
def Rooted (path : String) : Prop := path.toList.head? = some '$'

/-- A path from the root stays one when it goes on. -/
theorem Rooted.append {path : String} (h : Rooted path) (more : String) : Rooted (path ++ more) := by
  unfold Rooted at h ⊢
  rw [String.toList_append, List.head?_append, h]
  rfl

/-- A path from the root is not the keyword. -/
theorem Rooted.silent {path : String} (h : Rooted path) : Silent path := by
  obtain ⟨cs, hcs⟩ := List.head?_eq_some_iff.1 h
  exact silent_of_head hcs (by decide)

/-- An index field of a tree: its path is never the keyword. -/
structure RegularTree (f : IndexField) : Prop extends Regular f where
  silent : Silent f.path

/-- An index field with a path from the root and silent attributes is regular. -/
theorem Rooted.regularTree {path : String} (h : Rooted path) (name : String)
    {attributes : List String} (hattributes : attributes ≠ [] ∧ SilentAll attributes) :
    RegularTree ⟨path, name, attributes⟩ :=
  ⟨⟨Or.inr h.silent, hattributes.1, hattributes.2⟩, h.silent⟩

/-- A leaf of a tree is one index field, or none if it cannot be indexed. -/
theorem treeKind_leaf {kind : Kind} (hleaf : kind.isLeaf = true) (sortable : Bool)
    (treePath dotted : String) :
    treeKind sortable treePath dotted kind =
      match leafAttributes sortable kind with
      | none => []
      | some attributes => [IndexField.mk treePath (Query.searchName dotted) attributes] := by
  cases kind <;> first | rfl | cases hleaf

/-- The index fields of a leaf are regular. -/
theorem regular_treeLeaf {kind : Kind} (hleaf : kind.isLeaf = true) {sortable : Bool}
    {treePath : String} (hroot : Rooted treePath) (dotted : String) :
    ∀ f ∈ treeKind sortable treePath dotted kind, RegularTree f := by
  intro f hf
  rw [treeKind_leaf hleaf] at hf
  split at hf
  · cases hf
  · rename_i attributes hattributes
    obtain rfl := List.mem_singleton.1 hf
    exact hroot.regularTree _ (silent_leafAttributes hattributes)

mutual

/-- The index fields of a tree are regular, whatever the kind. -/
theorem regular_treeKind (kind : Kind) {sortable : Bool} {treePath : String}
    (hroot : Rooted treePath) (dotted : String) :
    ∀ f ∈ treeKind sortable treePath dotted kind, RegularTree f := by
  intro f hf
  cases kind with
  | object fields => exact regular_treeFields fields hroot dotted f hf
  | tuple positions => exact regular_treePositions positions hroot dotted 0 f hf
  | array element separator =>
    cases element with
    | object fields => cases hf
    | scalar kind =>
      obtain rfl := List.mem_singleton.1 hf
      exact (hroot.append "[*]").regularTree _ (silent_elementAttributes kind)
  | _ => exact regular_treeLeaf (by rfl) hroot dotted f hf
termination_by structural kind

/-- The index fields of the positions of a tuple are regular. -/
theorem regular_treePositions (positions : List Element) {treePath : String}
    (hroot : Rooted treePath) (dotted : String) (index : Nat) :
    ∀ f ∈ treePositions treePath dotted index positions, RegularTree f := by
  intro f hf
  cases positions with
  | nil => cases hf
  | cons element rest =>
    rcases List.mem_append.1 hf with hhere | hrest
    · have hposition := (hroot.append "[").append (Decimal.natText index) |>.append "]"
      exact regular_treePosition element hposition _ f hhere
    · exact regular_treePositions rest hroot dotted (index + 1) f hrest
termination_by structural positions

/-- The index fields of one position of a tuple are regular. -/
theorem regular_treePosition (element : Element) {treePath : String} (hroot : Rooted treePath)
    (dotted : String) : ∀ f ∈ treePosition treePath dotted element, RegularTree f := by
  intro f hf
  cases element with
  | object fields => exact regular_treeFields fields hroot dotted f hf
  | scalar kind =>
    obtain rfl := List.mem_singleton.1 hf
    exact hroot.regularTree _ (silent_elementAttributes kind)
termination_by structural element

/-- The index fields of a level are regular. -/
theorem regular_treeFields (fields : List (String × Field)) {treePath : String}
    (hroot : Rooted treePath) (dotted : String) :
    ∀ f ∈ treeFields treePath dotted fields, RegularTree f := by
  intro f hf
  cases fields with
  | nil => cases hf
  | cons first rest =>
    obtain ⟨name, kind, optional, sortable, indexed, default⟩ := first
    rcases List.mem_append.1 hf with hhere | hrest
    · split at hhere
      · exact regular_treeKind kind ((hroot.append ".").append name) _ f hhere
      · cases hhere
    · exact regular_treeFields rest hroot dotted f hrest
termination_by structural fields

end

/-- The index fields of hashes are regular, and only the first may have an empty path. -/
theorem regular_hashFields {fields : Entries Field} (hordered : fields.Ordered) :
    (∀ f ∈ hashFields fields, Regular f) ∧
      (hashFields fields).Pairwise fun _ g => g.path ≠ "" := by
  constructor
  · intro f hf
    obtain ⟨e, _, he⟩ := List.mem_filterMap.1 hf
    split at he
    · obtain ⟨attributes, hattributes, rfl⟩ := Option.map_eq_some_iff.1 he
      obtain ⟨hne, hsilent⟩ := silent_hashAttributes hattributes
      exact ⟨Or.inl rfl, hne, hsilent⟩
    · cases he
  · refine List.Pairwise.filterMap _ ?_ hordered
    intro a b hbelow f hf g hg
    have hpath : g.path = b.1 := by
      split at hg
      · obtain ⟨attributes, _, rfl⟩ := Option.map_eq_some_iff.1 hg
        rfl
      · cases hg
    intro hempty
    rw [← hpath, hempty] at hbelow
    exact List.not_lt_nil a.1.toList hbelow

/-- The index fields of a schema are regular, and only the first may have an empty path. -/
theorem regular_fields {schema : Schema} (hordered : schema.fields.Ordered) (name : String)
    (settings : Settings) :
    (∀ f ∈ (schema.indexDefinition name settings).fields, Regular f) ∧
      (schema.indexDefinition name settings).fields.Pairwise fun _ g => g.path ≠ "" := by
  unfold Schema.indexDefinition
  cases settings.storage with
  | hash => exact regular_hashFields hordered
  | json =>
    have hroot : Rooted "$" := rfl
    have hregular := regular_treeFields schema.fields hroot ""
    refine ⟨fun f hf => (hregular f hf).toRegular, ?_⟩
    exact List.pairwise_of_forall_mem_list fun _ _ g hg => (hregular g hg).silent.1

/-! ## The key start that is read back -/

/-- A field with the keyword as its name stops the scan at its name. -/
theorem arguments_keyword {f : IndexField} (hf : Regular f)
    (hname : isKeyword "PREFIX" f.searchName = true) :
    ∃ front, f.arguments = front ++ f.searchName :: f.attributes ∧
      ∀ a ∈ front, isKeyword "PREFIX" a = false := by
  have has : isKeyword "PREFIX" "AS" = false := by decide +kernel
  rcases hf.path with hpath | hpath
  · refine ⟨[], ?_, fun _ h => absurd h List.not_mem_nil⟩
    rw [IndexField.arguments, if_pos hpath, hpath]
    rfl
  · have hdiffers : f.path ≠ f.searchName := by
      intro heq
      rw [← heq, hpath.2] at hname
      cases hname
    refine ⟨[f.path, "AS"], ?_, ?_⟩
    · rw [IndexField.arguments, if_neg hdiffers]
      rfl
    · exact List.forall_mem_cons.2 ⟨hpath.2, List.forall_mem_singleton.2 has⟩

/-- A field with another name is passed over. -/
theorem arguments_pass {f : IndexField} (hf : Regular f)
    (hname : isKeyword "PREFIX" f.searchName = false) :
    ∀ a ∈ f.arguments, isKeyword "PREFIX" a = false := by
  have has : isKeyword "PREFIX" "AS" = false := by decide +kernel
  have hattributes : ∀ a ∈ f.attributes, isKeyword "PREFIX" a = false :=
    fun a ha => (hf.attributes a ha).2
  have hpath : isKeyword "PREFIX" f.path = false := by
    rcases hf.path with hpath | hpath
    · rw [hpath, hname]
    · exact hpath.2
  refine List.forall_mem_cons.2 ⟨hpath, List.forall_mem_append.2 ⟨?_, hattributes⟩⟩
  split
  · exact fun _ h => absurd h List.not_mem_nil
  · exact List.forall_mem_cons.2 ⟨has, List.forall_mem_singleton.2 hname⟩

/-- The first field with the keyword as its name, if there is one, is the last of all and has one
attribute, so that no argument stands where a key start would. -/
def KeywordEnds (fields : List IndexField) : Prop :=
  match fields.dropWhile fun f => !isKeyword "PREFIX" f.searchName with
  | [] => True
  | f :: rest => rest = [] ∧ f.attributes.length = 1

/-- No key start is read from the arguments of the fields exactly if the first field with the
keyword as its name ends them. -/
theorem argumentAfter?_fields {fields : List IndexField} (hregular : ∀ f ∈ fields, Regular f)
    (hpaths : fields.Pairwise fun _ g => g.path ≠ "") :
    (argumentAfter? (fields.flatMap IndexField.arguments) "PREFIX" 1).getD "" = "" ↔
      KeywordEnds fields := by
  induction fields with
  | nil => exact iff_of_true rfl trivial
  | cons f rest ih =>
    obtain ⟨hf, hrest⟩ := List.forall_mem_cons.1 hregular
    obtain ⟨hlater, hpaths⟩ := List.pairwise_cons.1 hpaths
    rw [List.flatMap_cons, KeywordEnds, List.dropWhile_cons]
    cases hname : isKeyword "PREFIX" f.searchName with
    | false =>
      rw [argumentAfter?_append (arguments_pass hf hname), ih hrest hpaths]
      rfl
    | true =>
      obtain ⟨front, hfront, hpass⟩ := arguments_keyword hf hname
      rw [hfront, List.append_assoc, argumentAfter?_append hpass, List.cons_append,
        argumentAfter?_keyword hname]
      show ((f.attributes ++ rest.flatMap IndexField.arguments)[1]?).getD "" = "" ↔
        rest = [] ∧ f.attributes.length = 1
      -- one attribute follows the name at least, and what follows it is not empty
      cases hattributes : f.attributes with
      | nil => exact absurd hattributes hf.attributes_ne
      | cons a others =>
        cases others with
        | cons b others =>
          have hb : b ≠ "" := (hf.attributes b (by simp [hattributes])).1
          simp [hb]
        | nil =>
          cases rest with
          | nil => simp
          | cons g rest =>
            have hg : g.path ≠ "" := hlater g List.mem_cons_self
            simp [IndexField.arguments, hg]

end Index

end DocumentSchema
