import DocumentSchema.Proofs.Index.Leaves
import Mathlib.Data.List.SplitBy

/-!
# Paths of index fields, read and followed

The path of an index field of trees is the root and then selectors: a name behind a point, an index
or a star in brackets. `readSelectors?` reads them from the text and `findAll` follows them through a
tree. The text that an index writes for a leaf is read as the steps to the leaf, and a star for an
array (`readSelectors?_treePath`), if no name on the way holds a point or an opening bracket.
-/

set_option autoImplicit false

namespace DocumentSchema.Index

open Query

/-- One step of a path through a tree. -/
inductive Selector where
  | member (name : String)
  | item (index : Nat)
  | items
deriving DecidableEq

/-- The trees that a selector finds in a tree. -/
def Selector.find : Selector → Json → List Json
  | .member name, .object members => (Entries.get? members name).toList
  | .item index, .array elements => elements[index]?.toList
  | .items, .array elements => elements
  | _, _ => []

/-- The trees that selectors find one after the other. -/
def findAll (selectors : List Selector) (found : List Json) : List Json :=
  selectors.foldl (fun found selector => found.flatMap selector.find) found

/-- Nothing is found in nothing. -/
theorem findAll_nil (selectors : List Selector) : findAll selectors [] = [] := by
  induction selectors with
  | nil => rfl
  | cons selector rest ih => exact ih

/-- Selectors are followed from what the first one finds. -/
theorem findAll_cons (selector : Selector) (rest : List Selector) (json : Json) :
    findAll (selector :: rest) [json] = findAll rest (selector.find json) := by
  rw [findAll, List.foldl_cons, List.flatMap_singleton, findAll]

/-- Selectors are followed from what the ones before them find. -/
theorem findAll_append (front rest : List Selector) (found : List Json) :
    findAll (front ++ rest) found = findAll rest (findAll front found) :=
  List.foldl_append

/-! ## Reading -/

/-- The characters that a selector begins with. -/
def beginsSelector (c : Char) : Bool := c = '.' || c = '['

/-- Whether a character goes on with the selector before it. -/
def goesOn (_ c : Char) : Bool := !beginsSelector c

/-- Reads one selector. -/
def Selector.read? : List Char → Option Selector
  | '.' :: name => some (.member (String.ofList name))
  | '[' :: inside =>
    if inside = ['*', ']'] then some .items
    else if inside.getLast? = some ']' then
      (Decimal.readUnsigned? inside.dropLast).map .item
    else none
  | _ => none

/-- Reads a path: the root, then one selector after the other. -/
def readSelectors? (path : String) : Option (List Selector) :=
  match path.toList.splitBy goesOn with
  | ['$'] :: pieces => pieces.mapM Selector.read?
  | _ => none

/-- The trees that a path finds in a tree. -/
def findPath? (path : String) (json : Json) : Option (List Json) :=
  (readSelectors? path).map fun selectors => findAll selectors [json]

/-! ## Writing -/

/-- The selector that a step is written as. -/
def selectorOf : Step → Selector
  | .member name => .member name
  | .position index => .item index

/-- The selectors of a leaf: its steps, and all items of an array. -/
def Leaf.selectors (leaf : Leaf) : List Selector :=
  leaf.location.map selectorOf ++ if leaf.byItems then [.items] else []

/-- A text that stands for one selector. -/
def IsPiece (piece : List Char) : Prop :=
  ∃ c rest, piece = c :: rest ∧ beginsSelector c = true ∧ ∀ d ∈ rest, beginsSelector d = false

/-- The characters of a piece go on with it. -/
theorem goesOn_piece {c : Char} {rest : List Char} (h : ∀ d ∈ rest, beginsSelector d = false) :
    (c :: rest).IsChain fun x y => goesOn x y = true := by
  induction rest generalizing c with
  | nil => exact List.isChain_singleton c
  | cons d rest ih =>
    obtain ⟨hd, hrest⟩ := List.forall_mem_cons.1 h
    refine List.isChain_cons_cons.2 ⟨?_, ih hrest⟩
    rw [goesOn, hd, Bool.not_false]

/-- Each piece ends where the next one begins. -/
theorem not_goesOn_pieces {first : List Char} (hfirst : first ≠ []) {pieces : List (List Char)}
    (h : ∀ piece ∈ pieces, IsPiece piece) :
    (first :: pieces).IsChain fun a b =>
      ∃ (ha : a ≠ []) (hb : b ≠ []), goesOn (a.getLast ha) (b.head hb) = false := by
  induction pieces generalizing first with
  | nil => exact List.isChain_singleton first
  | cons piece pieces ih =>
    obtain ⟨⟨c, rest, rfl, hc, _⟩, hpieces⟩ := List.forall_mem_cons.1 h
    have hne : c :: rest ≠ [] := List.cons_ne_nil c rest
    refine List.isChain_cons_cons.2 ⟨⟨hfirst, hne, ?_⟩, ih hne hpieces⟩
    rw [List.head_cons, goesOn, hc, Bool.not_true]

/-- A path is cut where selectors begin. -/
theorem splitBy_pieces {c : Char} {rest : List Char} (hrest : ∀ d ∈ rest, beginsSelector d = false)
    {pieces : List (List Char)} (hpieces : ∀ piece ∈ pieces, IsPiece piece) :
    ((c :: rest) ++ pieces.flatten).splitBy goesOn = (c :: rest) :: pieces := by
  have hne : c :: rest ≠ [] := List.cons_ne_nil c rest
  rw [← List.flatten_cons]
  refine List.splitBy_flatten ?_ ?_ (not_goesOn_pieces hne hpieces)
  · intro hmem
    rcases List.mem_cons.1 hmem with heq | hmem
    · exact hne heq.symm
    · obtain ⟨_, _, heq, _⟩ := hpieces _ hmem
      cases heq
  · intro piece hmem
    rcases List.mem_cons.1 hmem with rfl | hmem
    · exact goesOn_piece hrest
    · obtain ⟨_, _, rfl, _, hothers⟩ := hpieces _ hmem
      exact goesOn_piece hothers

/-! ## What is written is read -/

/-- The names that do not begin a selector anywhere. -/
def Unselecting (name : String) : Prop := '.' ∉ name.toList ∧ '[' ∉ name.toList

instance (name : String) : Decidable (Unselecting name) :=
  inferInstanceAs (Decidable ('.' ∉ name.toList ∧ '[' ∉ name.toList))

/-- No character of such a name begins a selector. -/
theorem Unselecting.beginsSelector {name : String} (h : Unselecting name) :
    ∀ c ∈ name.toList, beginsSelector c = false := by
  intro c hc
  have hpoint : c ≠ '.' := fun heq => h.1 (heq ▸ hc)
  have hbracket : c ≠ '[' := fun heq => h.2 (heq ▸ hc)
  simp [Index.beginsSelector, hpoint, hbracket]

/-- No digit begins a selector. -/
theorem beginsSelector_toChar (d : Decimal.Digit) : beginsSelector d.toChar = false := by
  revert d
  decide

/-- A step to a member is written as a point and its name. -/
theorem toList_member (name : String) :
    (Step.treeText (.member name)).toList = '.' :: name.toList := by
  rw [Step.treeText, String.toList_append]
  rfl

/-- A step to a member is one piece. -/
theorem isPiece_member {name : String} (h : Unselecting name) :
    IsPiece (Step.treeText (.member name)).toList :=
  ⟨'.', name.toList, toList_member name, rfl, h.beginsSelector⟩

/-- A step to a position is written as its number in brackets. -/
theorem toList_position (index : Nat) :
    (Step.treeText (.position index)).toList = '[' :: ((Decimal.natText index).toList ++ [']']) := by
  rw [Step.treeText, String.toList_append, String.toList_append]
  rfl

/-- A step to a position is one piece. -/
theorem isPiece_position (index : Nat) : IsPiece (Step.treeText (.position index)).toList := by
  refine ⟨'[', _, toList_position index, rfl, ?_⟩
  intro d hd
  rcases List.mem_append.1 hd with hd | hd
  · obtain ⟨digit, rfl⟩ := Decimal.exists_of_mem_natText hd
    exact beginsSelector_toChar digit
  · obtain rfl := List.mem_singleton.1 hd
    rfl

/-- A step to a member is read back. -/
theorem read?_member (name : String) :
    Selector.read? (Step.treeText (.member name)).toList = some (.member name) := by
  rw [toList_member, Selector.read?, String.ofList_toList]

/-- A step to a position is read back. -/
theorem read?_position (index : Nat) :
    Selector.read? (Step.treeText (.position index)).toList = some (.item index) := by
  have hstar : (Decimal.natText index).toList ++ [']'] ≠ ['*', ']'] := by
    intro heq
    have htext : (Decimal.natText index).toList ++ [']'] = ['*'] ++ [']'] := heq
    have hmem : '*' ∈ (Decimal.natText index).toList := by
      rw [List.append_cancel_right htext]
      exact List.mem_singleton_self _
    obtain ⟨digit, hdigit⟩ := Decimal.exists_of_mem_natText hmem
    revert digit
    decide
  rw [toList_position, Selector.read?, if_neg hstar, if_pos List.getLast?_concat,
    List.dropLast_concat, Decimal.toList_natText, Decimal.readUnsigned?_numeral, Option.map_some]

/-- Every step is read as its selector. -/
theorem read?_step (step : Step) :
    Selector.read? step.treeText.toList = some (selectorOf step) := by
  cases step with
  | member name => exact read?_member name
  | position index => exact read?_position index

/-- The texts of the selectors of a leaf. -/
def Leaf.pieces (leaf : Leaf) : List (List Char) :=
  leaf.location.map (fun step => step.treeText.toList) ++
    if leaf.byItems then [['[', '*', ']']] else []

/-- The steps of a location are written one after the other. -/
theorem toList_steps (location : List Step) (above : String) :
    (location.foldl (fun path step => path ++ step.treeText) above).toList =
      above.toList ++ (location.map fun step => step.treeText.toList).flatten := by
  induction location generalizing above with
  | nil => simp
  | cons step rest ih =>
    rw [List.foldl_cons, ih, String.toList_append, List.map_cons, List.flatten_cons,
      List.append_assoc]

/-- The path of a leaf in a tree is the root and the pieces of the leaf. -/
theorem toList_treePath (leaf : Leaf) :
    (leaf.treePath "$").toList = ['$'] ++ leaf.pieces.flatten := by
  have hmark : leaf.mark.toList =
      (if leaf.byItems then [['[', '*', ']']] else []).flatten := by
    rw [Leaf.mark]
    cases leaf.byItems <;> rfl
  rw [Leaf.treePath, String.toList_append, toList_steps, hmark, Leaf.pieces, List.flatten_append,
    List.append_assoc]
  rfl

/-- All pieces of a leaf stand for one selector each. -/
theorem isPiece_of_mem {leaf : Leaf}
    (hnames : ∀ name, .member name ∈ leaf.location → Unselecting name) :
    ∀ piece ∈ leaf.pieces, IsPiece piece := by
  intro piece hpiece
  rcases List.mem_append.1 hpiece with hstep | hmark
  · obtain ⟨step, hmem, rfl⟩ := List.mem_map.1 hstep
    cases step with
    | member name => exact isPiece_member (hnames name hmem)
    | position index => exact isPiece_position index
  · split at hmark
    · obtain rfl := List.mem_singleton.1 hmark
      exact ⟨'[', ['*', ']'], rfl, rfl, by simp [beginsSelector]⟩
    · cases hmark

/-- The pieces of a leaf are read as its selectors. -/
theorem mapM_read?_pieces (leaf : Leaf) : leaf.pieces.mapM Selector.read? = some leaf.selectors := by
  have hsteps : ∀ location : List Step,
      (location.map fun step => step.treeText.toList).mapM Selector.read? =
        some (location.map selectorOf) := by
    intro location
    induction location with
    | nil => rfl
    | cons step rest ih =>
      rw [List.map_cons, List.mapM_cons, read?_step, ih]
      rfl
  rw [Leaf.pieces, Leaf.selectors, List.mapM_append, hsteps]
  cases leaf.byItems <;> rfl

/-- The path that an index writes for a leaf is read as the steps to the leaf. -/
theorem readSelectors?_treePath {leaf : Leaf}
    (hnames : ∀ name, .member name ∈ leaf.location → Unselecting name) :
    readSelectors? (leaf.treePath "$") = some leaf.selectors := by
  have hroot : ∀ d ∈ ([] : List Char), beginsSelector d = false := by simp
  rw [readSelectors?, toList_treePath, splitBy_pieces hroot (isPiece_of_mem hnames)]
  exact mapM_read?_pieces leaf

end DocumentSchema.Index
