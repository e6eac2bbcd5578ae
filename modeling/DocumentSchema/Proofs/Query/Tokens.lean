import DocumentSchema.Proofs.Codec.Hash
import DocumentSchema.Proofs.Query.Bounds

/-!
# Tokens and stored texts

A tag clause finds a value only if its token says what is stored. `Place.KeepsText` says which text
is stored for one value at a place: in a hash the text of a field or of one element of an array, in
a tree the content of a text or the word of a truth value. The token of such a value is that text
with escapes, for every kind that tags match and for whatever value the writer accepts
(`Session.tag_eq`).
-/

set_option autoImplicit false

namespace DocumentSchema.Query

/-- The text that a tag index sees in a tree: that of a text, or the word of a truth value. -/
def tagText? : Json → Option String
  | .string s => some s
  | .bool b => some (Value.boolText b)
  | _ => none

/-- The text that is stored for one value at a place: in a hash that of a field which is no array,
or of one element of an array; in a tree whatever has a text there. -/
inductive Place.KeepsText : Storage → Place → Value → String → Prop
  | field {path : String} {kind : Kind} {v : Value} {text : String}
      (hkind : ∀ element separator, kind ≠ .array element separator)
      (h : Hash.encodeKind path kind v = .ok (some text)) : KeepsText .hash (.field kind) v text
  | element {path : String} {kind : Scalar} {separator : Char} {index : Nat} {v : Value}
      {text : String} (h : Hash.elementText path kind separator index v = .ok text) :
      KeepsText .hash (.field (.array (.scalar kind) separator)) v text
  | tree {place : Place} {v : Value} {json : Json} {text : String}
      (h : place.Stores .json v (.tree json)) (htext : tagText? json = some text) :
      KeepsText .json place v text

/-- An escaped text without its backslashes is the text. -/
theorem unescapeText_escapeText (s : String) : unescapeText (escapeText s) = s := by
  rw [unescapeText, escapeText, String.toList_ofList, unescape_escape, String.ofList_toList]

/-! ## Tokens of admitted values -/

namespace TagContent

/-- A text field and a token write a value alike. -/
theorem stringToken_of_plainText {path text : String} {v : Value}
    (h : Hash.plainText path v = .ok text) : stringToken v = .ok text := by
  have hplain : v.plainText? = some text := by
    cases v <;> cases h <;> rfl
  rw [stringToken, hplain]

/-- A text that a tree keeps is the token of its value. -/
theorem stringToken_of_encodeText {path text : String} {v : Value} {json : Json}
    (h : Tree.encodeText path v = .ok json) (htext : tagText? json = some text) :
    stringToken v = .ok text := by
  have hplain : v.plainText? = some text := by
    cases v with
    | string s =>
      obtain rfl := Except.ok.inj h
      exact htext
    | bool b =>
      obtain rfl := Except.ok.inj h
      exact htext
    | bigInt i =>
      obtain rfl := Except.ok.inj h
      exact htext
    | number x =>
      -- a number is stored as a number, or as a null if no tree can hold it
      obtain rfl := Except.ok.inj h
      cases x <;> cases htext
    | _ => cases h
  rw [stringToken, hplain]

/-- The token of whatever an integer field accepts is the text of the integer. -/
theorem bigIntToken_of_admitted {path : String} {literals : Option (List Int128)} {v : Value}
    {i : Int128} (h : Admission.bigInt path literals v = .ok i) : bigIntToken v = .ok i.text := by
  cases v with
  | bigInt j =>
    obtain rfl := Admission.bigInt_eq_ok h
    rfl
  | number x =>
    have hfound : x.toInt128? = some i := by
      rw [Admission.bigInt] at h
      split at h
      · contradiction
      · rename_i found hfound
        split at h
        · rw [hfound, Except.ok.inj h]
        · contradiction
    simp only [bigIntToken, hfound]
  | _ => cases h

/-- Only a truth value is admitted as one. -/
theorem eq_of_boolean {path : String} {v : Value} {b : Bool}
    (h : Admission.boolean path v = .ok b) : v = .bool b := by
  cases v <;> cases h
  rfl

/-- An admitted date has its seconds for a token. -/
theorem dateToken_of_admitted {path : String} {v : Value} {t : Instant}
    (h : Admission.date path v = .ok t) : dateToken v = .ok (Hash.secondsText t.millis) := by
  have hmillis : v.toMillis? = some t.millis := by
    rw [Value.toMillis?, Admission.date_iff.1 h]
    rfl
  rw [dateToken, hmillis]

/-- An admitted point has its text for a token. -/
theorem pointToken_of_admitted {path : String} {v : Value} {p : Coordinates}
    (h : Admission.point path v = .ok p) : pointToken v = .ok p.text := by
  obtain ⟨q, rfl⟩ := Admission.exists_of_point h
  obtain ⟨rfl, hvalid⟩ := Admission.point_eq_ok h
  simp [pointToken, Option.filter, hvalid]

/-- A token on an array in a hash is written as the elements of the array are. -/
theorem token_of_scalarText {path text : String} {kind : Scalar} {v : Value}
    (h : Hash.scalarText path kind v = .ok text) : (element kind).token v = .ok text := by
  cases kind with
  | string => exact stringToken_of_plainText h
  | text => exact stringToken_of_plainText h
  | number =>
    obtain ⟨x, hx, rfl⟩ := Outcome.map_eq_ok.1 h
    obtain rfl := (Admission.number_iff.1 hx).1
    rfl
  | bigInt =>
    obtain ⟨i, hi, rfl⟩ := Outcome.map_eq_ok.1 h
    exact bigIntToken_of_admitted hi
  | boolean =>
    obtain ⟨b, hb, rfl⟩ := Outcome.map_eq_ok.1 h
    obtain rfl := eq_of_boolean hb
    rfl
  | date =>
    obtain ⟨t, ht, rfl⟩ := Outcome.map_eq_ok.1 h
    exact dateToken_of_admitted ht
  | point =>
    obtain ⟨p, hp, rfl⟩ := Outcome.map_eq_ok.1 h
    exact pointToken_of_admitted hp

end TagContent

/-! ## Tokens at places -/

/-- The fields other than arrays that tags match, with what stands in the tags. -/
inductive Tagged (storage : Storage) : Kind → TagContent → Prop
  | string (separator : Char) (caseSensitive : Bool) :
    Tagged storage (.string separator caseSensitive) .string
  | bigInt (literals : Option (List Int128)) : Tagged storage (.bigInt literals) .bigInt
  | boolean : Tagged storage .boolean (.boolean storage)

/-- A field other than an array with a matcher for tags is one of those that tags match. -/
theorem tagged_of_ofKind? {storage : Storage} {kind : Kind} {fresh : Matcher}
    (hfresh : Matcher.ofKind? storage kind = some fresh) (hfamily : fresh.family = .tag)
    (hkind : ∀ element separator, kind ≠ .array element separator) :
    ∃ content, fresh = .tag { content } ∧ Tagged storage kind content := by
  cases kind with
  | string separator caseSensitive =>
    cases hfresh
    exact ⟨_, rfl, .string separator caseSensitive⟩
  | bigInt literals =>
    cases hfresh
    exact ⟨_, rfl, .bigInt literals⟩
  | boolean =>
    cases hfresh
    exact ⟨_, rfl, .boolean⟩
  | array element separator => exact absurd rfl (hkind element separator)
  | tuple positions => cases hfresh
  | object fields => cases hfresh
  | _ =>
    cases hfresh
    contradiction

/-- A token on a field of a hash is the text of the field. -/
theorem Tagged.token_hash {kind : Kind} {content : TagContent} (htagged : Tagged .hash kind content)
    {path text : String} {v : Value} (h : Hash.kindText path kind v = .ok text) :
    content.token v = .ok text := by
  cases htagged with
  | string => exact TagContent.stringToken_of_plainText h
  | bigInt =>
    obtain ⟨i, hi, rfl⟩ := Outcome.map_eq_ok.1 h
    exact TagContent.bigIntToken_of_admitted hi
  | boolean =>
    obtain ⟨b, hb, rfl⟩ := Outcome.map_eq_ok.1 h
    obtain rfl := TagContent.eq_of_boolean hb
    rfl

/-- A token on a field in a tree is the text that is stored there. -/
theorem Tagged.token_tree {kind : Kind} {content : TagContent} (htagged : Tagged .json kind content)
    {path text : String} {v : Value} {json : Json} (hnull : v.isNull = false)
    (h : Tree.encodeKind path kind v = .ok json) (htext : tagText? json = some text) :
    content.token v = .ok text := by
  rw [Tree.encodeKind.eq_def] at h
  simp only [hnull, Bool.false_eq_true, if_false] at h
  cases htagged with
  | string => exact TagContent.stringToken_of_encodeText h htext
  | bigInt =>
    obtain ⟨i, hi, rfl⟩ := Outcome.map_eq_ok.1 h
    obtain rfl := Option.some.inj htext
    exact TagContent.bigIntToken_of_admitted hi
  | boolean =>
    obtain ⟨b, hb, rfl⟩ := Outcome.map_eq_ok.1 h
    obtain rfl := TagContent.eq_of_boolean hb
    obtain rfl := Option.some.inj htext
    rfl

/-- A kind of scalar has a matcher of its own. -/
theorem Matcher.ofKind?_ofScalar (storage : Storage) (kind : Scalar) :
    ofKind? storage (Kind.ofScalar kind) = some (ofScalar storage kind) := by
  cases kind <;> rfl

/-- No kind of scalar is an array. -/
theorem ofScalar_ne_array (kind : Scalar) (element : Element) (separator : Char) :
    Kind.ofScalar kind ≠ .array element separator := by
  cases kind <;> rintro ⟨⟩

/-- A kind of scalar with a matcher for tags is one of those that tags match. -/
theorem tagged_ofScalar {storage : Storage} {kind : Scalar}
    (hfamily : (Matcher.ofScalar storage kind).family = .tag) :
    ∃ content, Matcher.ofScalar storage kind = .tag { content } ∧
      Tagged storage (Kind.ofScalar kind) content :=
  tagged_of_ofKind? (Matcher.ofKind?_ofScalar storage kind) hfamily (ofScalar_ne_array kind)

/-- The field at a place has a matcher that is the one of its kind. -/
theorem matcher_field {path : String} {storage : Storage} {kind : Kind} {name : KindName}
    {fresh : Matcher} (h : (Place.field kind).matcher path storage = .ok (name, fresh)) :
    Matcher.ofKind? storage kind = some fresh := by
  rw [Place.matcher] at h
  split at h
  · rename_i found hfound
    rw [hfound, (Prod.mk.inj (Except.ok.inj h)).2]
  · contradiction

/-- The token of a value at a place that tags match is the text that is stored for it. -/
theorem Place.KeepsText.token {storage : Storage} {place : Place} {path : String} {kind : KindName}
    {fresh : Matcher} {v : Value} {text : String} (h : place.KeepsText storage v text)
    (hmatcher : place.matcher path storage = .ok (kind, fresh)) (hfamily : fresh.family = .tag)
    (hnull : v.isNull = false) :
    ∃ content, fresh = .tag { content } ∧ content.token v = .ok text := by
  cases h with
  | field hkind h =>
    obtain ⟨content, hfresh, htagged⟩ := tagged_of_ofKind? (matcher_field hmatcher) hfamily hkind
    exact ⟨content, hfresh, htagged.token_hash (kindText_of_encodeKind h)⟩
  | element h =>
    obtain ⟨_, htext, _⟩ := Hash.elementText_eq_ok h
    obtain rfl := Option.some.inj (matcher_field hmatcher)
    exact ⟨_, rfl, TagContent.token_of_scalarText htext⟩
  | tree h htext =>
    cases h with
    | tree hkind h =>
      obtain ⟨content, hfresh, htagged⟩ := tagged_of_ofKind? (matcher_field hmatcher) hfamily hkind
      exact ⟨content, hfresh, htagged.token_tree hnull h htext⟩
    | @element _ element separator _ json h =>
      cases element with
      | object fields => cases hmatcher
      | scalar scalar =>
        rw [Tree.encodeElement, Tree.encodeScalar_eq] at h
        obtain rfl := Option.some.inj (matcher_field hmatcher)
        obtain ⟨content, hfresh, htagged⟩ := tagged_ofScalar hfamily
        exact ⟨content, hfresh, htagged.token_tree hnull h htext⟩
    | @position _ scalar _ json h =>
      rw [Tree.encodeElement, Tree.encodeScalar_eq] at h
      obtain rfl := (Prod.mk.inj (Except.ok.inj hmatcher)).2
      obtain ⟨content, hfresh, htagged⟩ := tagged_ofScalar hfamily
      exact ⟨content, hfresh, htagged.token_tree hnull h htext⟩

/-! ## The clause of a value -/

open Edit in
/-- An operator for one value makes its token the only one of a tag clause. -/
theorem operate_eq_tag {clause : TagClause} {v : Value} {token : String}
    (h : clause.token v = .ok token) :
    (Matcher.operate (.eq v)).on (.tag clause) =
      (.ok (), .tag { clause with tokens := [token] }) := by
  have hset : (TagClause.setTo v).on clause = (.ok (), { clause with tokens := [token] }) := by
    unfold TagClause.setTo
    rw [on_get_bind, h, on_check_bind]
    exact on_modify _ _
  unfold Matcher.operate
  rw [on_get_bind]
  simp only
  unfold Matcher.change
  rw [on_part, hset]
  rfl

namespace Session

/-- Whatever clauses a session has, a clause on a tag field accepts each value that is stored there
as a text, and is rendered with one token between braces, which is that text with escapes. -/
theorem tag_eq {session : Session} {path : String} {kind : KindName} {fresh : Matcher}
    {place : Place} {v : Value} {text : String}
    (hresolve : resolve session.search.schema session.search.storage path = .ok (kind, fresh))
    (hfamily : fresh.family = .tag)
    (hplace : Place.follow path (.level session.search.schema.fields) (segments path) = .ok place)
    (hnull : v.isNull = false) (hkept : place.KeepsText session.search.storage v text) :
    ∃ clause token,
      (session.step (.openClause path)).1.step (.operate (.eq v)) =
        (⟨{ session.search with clauses := session.search.clauses ++ [clause] }, true⟩, .done) ∧
      clause.text? =
        some ("(@" ++ searchName path ++ ":" ++ ("\x7b" ++ token ++ "\x7d") ++ ")") ∧
      unescapeText token = text := by
  obtain ⟨other, hfollow, _, hmatcher⟩ := resolve_eq_ok hresolve
  obtain rfl : other = place := Except.ok.inj (hfollow.symm.trans hplace)
  obtain ⟨content, rfl, htoken⟩ := hkept.token hmatcher hfamily hnull
  have hescaped : TagClause.token { content } v = .ok (escapeText text) := by
    rw [TagClause.token, htoken]
    rfl
  refine ⟨⟨path, searchName path, kind, false, .tag { content, tokens := [escapeText text] }⟩,
    escapeText text, ?_, rfl, unescapeText_escapeText text⟩
  rw [step_openClause hresolve]
  exact @operate_done _ _ session.search.clauses
    ⟨path, searchName path, kind, false, .tag { content }⟩ _ rfl rfl (operate_eq_tag hescaped)

/-! ### Moments in a hash -/

/-- An array of dates. -/
def diarySchema : Schema where
  fields := [("moments", .ofKind (.array (.scalar .date) ';'))]
  references := []
  relations := []
  warnings := []

/-- An element of an array of dates is stored in seconds, and looked for by them. -/
theorem tag_eq_moments :
    resolve diarySchema .hash "moments" = .ok (.array, .tag { content := .element .date }) ∧
      Place.follow "moments" (.level diarySchema.fields) (segments "moments") =
        .ok (.field (.array (.scalar .date) ';')) ∧
      Hash.elementText "moments" .date ';' 0 (.string "1970-01-01T00:00:01.5Z") = .ok "1.5" ∧
      ∃ clause token,
        ((start diarySchema .hash).step (.openClause "moments")).1.step
            (.operate (.eq (.string "1970-01-01T00:00:01.5Z"))) =
          (⟨{ schema := diarySchema, storage := .hash, clauses := [clause] }, true⟩, .done) ∧
        clause.text? =
          some ("(@" ++ searchName "moments" ++ ":" ++ ("\x7b" ++ token ++ "\x7d") ++ ")") ∧
        unescapeText token = "1.5" := by
  have hresolve : resolve diarySchema .hash "moments" =
      .ok (.array, .tag { content := .element .date }) := by decide
  have hplace : Place.follow "moments" (.level diarySchema.fields) (segments "moments") =
      .ok (.field (.array (.scalar .date) ';')) := rfl
  have htext : Hash.elementText "moments" .date ';' 0 (.string "1970-01-01T00:00:01.5Z") =
      .ok "1.5" := by decide +kernel
  exact ⟨hresolve, hplace, htext,
    @tag_eq (start diarySchema .hash) _ _ _ _ _ _ hresolve rfl hplace rfl (.element htext)⟩

end Session

end DocumentSchema.Query
