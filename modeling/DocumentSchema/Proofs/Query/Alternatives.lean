import DocumentSchema.Proofs.Query.Tokens

/-!
# The alternatives of a tag clause

A tag clause matches what was last asked of it: the value of the last `eq` it accepted and of every
`or` it accepted after that (`TagContent.alternatives`). Its text has the tokens of these values
between braces, with a bar between blanks from one to the next. Whoever reads it takes the first
closing brace that is not escaped for its end (`readBody`), cuts the body at the bars of which no
character is escaped (`cutAlternatives`), and drops the backslashes of each piece. Whatever the values
are made of, this gives their texts back one by one (`tag_alternatives`), since an escaped text holds
no blank, bar, brace or backslash of its own.
-/

set_option autoImplicit false

namespace DocumentSchema.Query

/-! ## Reading a body -/

/-- What stands between two alternatives. -/
def alternativeSeparator : List Char := [' ', '|', ' ']

/-- Puts characters in front of the first of some pieces. -/
def onFirst (front : List Char) : List (List Char) → List (List Char)
  | [] => [front]
  | piece :: rest => (front ++ piece) :: rest

/-- Cuts a body at every separator of which no character is escaped. -/
def cutAlternatives : List Char → List (List Char)
  | [] => [[]]
  | '\\' :: c :: cs => onFirst ['\\', c] (cutAlternatives cs)
  | ' ' :: '|' :: ' ' :: cs => [] :: cutAlternatives cs
  | c :: cs => onFirst [c] (cutAlternatives cs)

/-- What stands before the first closing brace that is not escaped, and what after it. -/
def readBody : List Char → Option (List Char × List Char)
  | [] => none
  | '\\' :: c :: cs => (readBody cs).map fun found => ('\\' :: c :: found.1, found.2)
  | '}' :: cs => some ([], cs)
  | c :: cs => (readBody cs).map fun found => (c :: found.1, found.2)

/-- Every special character has one backslash in front that escapes it, and no other character has. -/
def IsEscaped : List Char → Prop
  | [] => True
  | '\\' :: c :: cs => c ∈ specialChars ∧ IsEscaped cs
  | c :: cs => c ∉ specialChars ∧ IsEscaped cs

/-- Two fronts are put before the first piece as one. -/
theorem onFirst_onFirst (front next : List Char) (pieces : List (List Char)) :
    onFirst front (onFirst next pieces) = onFirst (front ++ next) pieces := by
  cases pieces with
  | nil => rfl
  | cons piece rest => simp [onFirst]

/-! ## Characters that need no escape -/

section

variable {c : Char} (h : c ∉ specialChars)

include h

/-- A character that is not special differs from every special one. -/
theorem ne_of_not_special {d : Char} (hd : d ∈ specialChars) : c ≠ d := by
  rintro rfl
  exact h hd

/-- A character that is not special goes to the piece that it stands in. -/
theorem cutAlternatives_cons (cs : List Char) :
    cutAlternatives (c :: cs) = onFirst [c] (cutAlternatives cs) := by
  have hslash : c ≠ '\\' := ne_of_not_special h (by decide)
  have hblank : c ≠ ' ' := ne_of_not_special h (by decide)
  exact cutAlternatives.eq_4 c cs (fun _ _ e _ => hslash e) fun _ e _ => hblank e

/-- A character that is not special belongs to the body. -/
theorem readBody_cons (cs : List Char) :
    readBody (c :: cs) = (readBody cs).map fun found => (c :: found.1, found.2) := by
  have hslash : c ≠ '\\' := ne_of_not_special h (by decide)
  have hbrace : c ≠ '}' := ne_of_not_special h (by decide)
  exact readBody.eq_4 c cs (fun _ _ e _ => hslash e) hbrace

/-- A text is escaped exactly if it is with a character in front that is not special. -/
theorem isEscaped_cons (cs : List Char) : IsEscaped (c :: cs) ↔ IsEscaped cs := by
  have hslash : c ≠ '\\' := ne_of_not_special h (by decide)
  rw [IsEscaped.eq_3 c cs fun _ _ e _ => hslash e]
  exact and_iff_right h

end

/-! ## Escaped texts -/

/-- An escaped text is one. -/
theorem isEscaped_escape (text : List Char) : IsEscaped (escape text) := by
  induction text with
  | nil => trivial
  | cons c cs ih =>
    rw [escape]
    split
    · rename_i hspecial
      exact ⟨hspecial, ih⟩
    · rename_i hplain
      exact (isEscaped_cons hplain _).2 ih

/-- A body has at least one piece. -/
theorem cutAlternatives_ne_nil (body : List Char) : cutAlternatives body ≠ [] := by
  have honFirst : ∀ front pieces, onFirst front pieces ≠ [] := by
    intro front pieces
    cases pieces <;> exact List.cons_ne_nil _ _
  fun_cases cutAlternatives body with
  | case1 => exact List.cons_ne_nil _ _
  | case2 c cs => exact honFirst _ _
  | case3 cs => exact List.cons_ne_nil _ _
  | case4 c cs => exact honFirst _ _

/-- No cut falls into an escaped text, whatever follows it. -/
theorem cutAlternatives_escape_append (text rest : List Char) :
    cutAlternatives (escape text ++ rest) = onFirst (escape text) (cutAlternatives rest) := by
  induction text with
  | nil =>
    obtain ⟨piece, pieces, hpieces⟩ := List.exists_cons_of_ne_nil (cutAlternatives_ne_nil rest)
    show cutAlternatives rest = onFirst [] (cutAlternatives rest)
    rw [hpieces]
    rfl
  | cons c cs ih =>
    rw [escape]
    split
    · show onFirst ['\\', c] (cutAlternatives (escape cs ++ rest)) = _
      rw [ih, onFirst_onFirst]
      rfl
    · rename_i hplain
      rw [List.cons_append, cutAlternatives_cons hplain, ih, onFirst_onFirst]
      rfl

/-- The end of a body does not fall into an escaped text, whatever follows it. -/
theorem readBody_escape_append (text rest : List Char) :
    readBody (escape text ++ rest) =
      (readBody rest).map fun found => (escape text ++ found.1, found.2) := by
  induction text with
  | nil =>
    show readBody rest = (readBody rest).map id
    rw [Option.map_id]
    rfl
  | cons c cs ih =>
    rw [escape]
    split
    · show (readBody (escape cs ++ rest)).map _ = _
      rw [ih, Option.map_map]
      rfl
    · rename_i hplain
      rw [List.cons_append, readBody_cons hplain, ih, Option.map_map]
      rfl

/-! ## Bodies of escaped texts -/

/-- Escaped texts with separators between them. -/
def bodyOf (texts : List (List Char)) : List Char :=
  alternativeSeparator.intercalate (texts.map escape)

/-- A body begins with its first text and goes on behind a separator. -/
theorem bodyOf_cons_cons (text next : List Char) (texts : List (List Char)) :
    bodyOf (text :: next :: texts) =
      escape text ++ (alternativeSeparator ++ bodyOf (next :: texts)) := by
  unfold bodyOf
  rw [List.map_cons, List.map_cons, List.intercalate_cons_cons, List.append_assoc]

/-- A body is cut into its texts, with their escapes. -/
theorem cutAlternatives_bodyOf {texts : List (List Char)} (h : texts ≠ []) :
    cutAlternatives (bodyOf texts) = texts.map escape := by
  induction texts with
  | nil => exact absurd rfl h
  | cons text rest ih =>
    cases rest with
    | nil =>
      have hsingle : bodyOf [text] = escape text ++ [] := by
        rw [List.append_nil]
        exact List.intercalate_singleton
      rw [hsingle, cutAlternatives_escape_append]
      show [escape text ++ []] = _
      rw [List.append_nil]
      rfl
    | cons next texts =>
      have hrest := ih (List.cons_ne_nil _ _)
      rw [bodyOf_cons_cons, cutAlternatives_escape_append]
      show onFirst (escape text) ([] :: cutAlternatives (bodyOf (next :: texts))) = _
      rw [hrest]
      show (escape text ++ []) :: _ = _
      rw [List.append_nil]
      rfl

/-- A body ends at the first closing brace behind it. -/
theorem readBody_bodyOf (texts : List (List Char)) (rest : List Char) :
    readBody (bodyOf texts ++ '}' :: rest) = some (bodyOf texts, rest) := by
  induction texts with
  | nil => rfl
  | cons text texts ih =>
    cases texts with
    | nil =>
      have hsingle : bodyOf [text] = escape text := List.intercalate_singleton
      rw [hsingle, readBody_escape_append]
      show some (escape text ++ [], rest) = _
      rw [List.append_nil]
    | cons next texts =>
      rw [bodyOf_cons_cons, List.append_assoc, readBody_escape_append, List.append_assoc]
      show Option.map _ ((((readBody (bodyOf (next :: texts) ++ '}' :: rest)).map _).map _).map _)
        = _
      rw [ih]
      rfl

/-! ## What was asked last -/

/-- The list from the last member with a property on; the whole list if there is none. -/
def fromLast {α : Type} (p : α → Bool) : List α → List α
  | [] => []
  | a :: rest => if rest.any p then fromLast p rest else a :: rest

/-- The last member has the property itself, or leaves the start where it was. -/
theorem fromLast_concat {α : Type} (p : α → Bool) (list : List α) (last : α) :
    fromLast p (list ++ [last]) = if p last then [last] else fromLast p list ++ [last] := by
  induction list with
  | nil =>
    show [last] = if p last then [last] else [last]
    rw [ite_self]
  | cons a rest ih =>
    rw [List.cons_append, fromLast, fromLast, List.any_append, ih]
    cases hlast : p last with
    | true => simp [hlast]
    | false => cases rest.any p <;> simp [hlast]

namespace TagContent

/-- The text that a call brings to a clause, if the clause accepts it. -/
def accepted? (content : TagContent) : Operator → Option String
  | .eq v => (content.token v).toOption
  | .or v => (content.token v).toOption
  | _ => none

/-- Whether a call makes its text the only one. -/
def startsOver (content : TagContent) : Operator → Bool
  | .eq v => (content.token v).toOption.isSome
  | _ => false

/-- The texts of the accepted calls from the last accepted `eq` on, or of all of them if no `eq` was
accepted. -/
def alternatives (content : TagContent) (operators : List Operator) : List String :=
  (fromLast content.startsOver operators).filterMap content.accepted?

variable {content : TagContent} {operators : List Operator} {operator : Operator}

/-- A refused call starts nothing over. -/
theorem startsOver_of_refused (h : content.accepted? operator = none) :
    content.startsOver operator = false := by
  cases operator with
  | eq v => exact congrArg Option.isSome h
  | _ => rfl

/-- One more call starts the texts over, adds to them or leaves them. -/
theorem alternatives_concat :
    content.alternatives (operators ++ [operator]) =
      (if content.startsOver operator then [] else content.alternatives operators) ++
        (content.accepted? operator).toList := by
  unfold alternatives
  rw [fromLast_concat]
  have hone : [operator].filterMap content.accepted? = (content.accepted? operator).toList := by
    rw [List.filterMap_cons]
    cases content.accepted? operator <;> rfl
  split
  · exact hone
  · rw [List.filterMap_append, hone]

end TagContent

/-! ## Calls on a tag clause -/

section

open Edit

/-- An operator for one more value puts its token behind the others of a tag clause. -/
theorem operate_or_tag {clause : TagClause} {v : Value} {token : String}
    (h : clause.token v = .ok token) :
    (Matcher.operate (.or v)).on (.tag clause) =
      (.ok (), .tag { clause with tokens := clause.tokens ++ [token] }) := by
  have hadd : (TagClause.add v).on clause =
      (.ok (), { clause with tokens := clause.tokens ++ [token] }) := by
    unfold TagClause.add
    rw [on_get_bind, h, on_check_bind]
    exact on_modify _ _
  unfold Matcher.operate
  rw [on_get_bind]
  simp only
  unfold Matcher.change
  rw [on_part, hadd]
  rfl

end

/-- A token is the escaped text of a value that the field accepts. -/
theorem TagClause.token_eq_ok_iff {clause : TagClause} {v : Value} {token : String} :
    clause.token v = .ok token ↔
      ∃ text, (clause.content.token v).toOption = some text ∧ token = escapeText text := by
  unfold TagClause.token
  cases clause.content.token v with
  | error e => simp [Except.map, Except.toOption]
  | ok text => simp [Except.map, Except.toOption, eq_comm]

/-- A call that brings no text leaves a tag clause as it was. -/
theorem operate_tag_of_refused {clause : TagClause} {operator : Operator}
    (h : clause.content.accepted? operator = none) :
    ((Matcher.operate operator).on (.tag clause)).2 = .tag clause := by
  have hall := Matcher.operate_allOrNothing operator (.tag clause)
  rcases hon : (Matcher.operate operator).on (.tag clause) with ⟨outcome, next⟩
  cases outcome with
  | error e => exact hall.of_error hon
  | ok u =>
    -- an accepted call is an `eq` or an `or` with a text, and brings it
    have haccepts := hall.of_ok hon
    cases haccepts with
    | tagEq htoken =>
      obtain ⟨text, htext, _⟩ := TagClause.token_eq_ok_iff.1 htoken
      exact absurd (h.symm.trans htext) (Option.some_ne_none text).symm
    | tagOr htoken =>
      obtain ⟨text, htext, _⟩ := TagClause.token_eq_ok_iff.1 htoken
      exact absurd (h.symm.trans htext) (Option.some_ne_none text).symm

/-- After any calls a tag clause has the tokens of its alternatives. -/
theorem after_tag (content : TagContent) (operators : List Operator) :
    (Matcher.tag { content }).after operators =
      .tag { content, tokens := (content.alternatives operators).map escapeText } := by
  induction operators using List.reverseRecOn with
  | nil => rfl
  | append_singleton operators operator ih =>
    rw [Matcher.after_concat, ih, TagContent.alternatives_concat]
    cases haccepted : content.accepted? operator with
    | none =>
      rw [operate_tag_of_refused haccepted, TagContent.startsOver_of_refused haccepted]
      simp
    | some text =>
      have htoken (v : Value) (hv : (content.token v).toOption = some text) :
          TagClause.token
            { content, tokens := (content.alternatives operators).map escapeText } v =
              .ok (escapeText text) :=
        TagClause.token_eq_ok_iff.2 ⟨text, hv, rfl⟩
      cases operator with
      -- an `eq` starts over, an `or` adds to what is there
      | eq v =>
        have hstarts : content.startsOver (.eq v) = true := congrArg Option.isSome haccepted
        rw [operate_eq_tag (htoken v haccepted), hstarts]
        rfl
      | or v =>
        rw [operate_or_tag (htoken v haccepted)]
        simp [TagContent.startsOver]
      | _ => cases haccepted

/-- The body of a tag clause is that of its escaped texts. -/
theorem toList_body (texts : List String) :
    (String.intercalate " | " (texts.map escapeText)).toList =
      bodyOf (texts.map String.toList) := by
  unfold bodyOf
  rw [String.toList_intercalate, List.map_map, List.map_map]
  have hescape : String.toList ∘ escapeText = escape ∘ String.toList := by
    funext text
    exact String.toList_ofList
  rw [hescape]
  rfl

/-- After any calls, refused ones included, a tag clause has no text if it matches nothing. Otherwise
its text is a body between braces. The pieces between the unescaped separators of the body are the
texts of its alternatives with their escapes; in each piece every special character is escaped once;
and no closing brace before the last one ends the body. -/
theorem tag_alternatives (content : TagContent) (operators : List Operator) (searchName : String) :
    match ((Matcher.tag { content }).after operators).text? searchName with
    | none => content.alternatives operators = []
    | some token =>
      ∃ body : List Char, token.toList = '{' :: (body ++ ['}']) ∧
        (cutAlternatives body).map (fun piece => unescapeText (String.ofList piece)) =
          content.alternatives operators ∧
        alternativeSeparator.intercalate (cutAlternatives body) = body ∧
        (∀ piece ∈ cutAlternatives body, IsEscaped piece) ∧
        ∀ rest, readBody (body ++ '}' :: rest) = some (body, rest) := by
  rw [after_tag]
  show match TagClause.text?
    { content, tokens := (content.alternatives operators).map escapeText } with
    | none => _
    | some token => _
  unfold TagClause.text?
  generalize content.alternatives operators = texts
  cases texts with
  | nil => rfl
  | cons text rest =>
    have hne : (text :: rest).map String.toList ≠ [] := List.cons_ne_nil _ _
    have hcut := cutAlternatives_bodyOf hne
    refine ⟨bodyOf ((text :: rest).map String.toList), ?_, ?_, ?_, ?_, ?_⟩
    · show ("\x7b" ++ String.intercalate " | " ((text :: rest).map escapeText) ++ "\x7d").toList = _
      rw [String.toList_append, String.toList_append, toList_body]
      rfl
    · rw [hcut, List.map_map, List.map_map]
      refine List.map_id'' (fun s => ?_) _
      exact unescapeText_escapeText s
    · rw [hcut]
      rfl
    · rw [hcut]
      intro piece hpiece
      obtain ⟨s, _, rfl⟩ := List.mem_map.1 hpiece
      exact isEscaped_escape s
    · exact readBody_bodyOf _

/-- Values that look like separators, braces and escapes, with refused ones between them. -/
example :
    ((Matcher.tag { content := .string }).after
        [.or (.string "lost"), .eq (.string "a | b\x7d"), .or .null, .or (.string "\\"),
          .eq (.array [])]).text? "" =
      some "\x7ba\\ \\|\\ b\\\x7d | \\\\\x7d" := by
  decide

end DocumentSchema.Query
