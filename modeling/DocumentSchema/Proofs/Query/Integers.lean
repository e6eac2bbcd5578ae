import DocumentSchema.Proofs.Codec.WholeNumbers
import DocumentSchema.Proofs.Query.Alternatives

/-!
# Tokens of integers

An integer can be asked for in three forms: as an integer, as a number of the same value, and as a
text that reads as one. What is stored for an integer is its shortest numeral, at every place that
holds integers and in whichever form it was given (`Place.HoldsIntegers.text_eq`). A token is that
numeral for the first two forms; a text becomes the token as it is spelled. So a token with zeros
or a plus sign in front finds nothing: a token is what is stored exactly if the value is no text or
the text is the numeral (`bigInt_token_iff`).
-/

set_option autoImplicit false

namespace DocumentSchema

open Outcome (map_eq_ok)

/-- The integer that a value stands for: itself, the number of the same value, or a text that reads
as it, with zeros or a sign in front. -/
inductive Value.DenotesInteger : Value → Int128 → Prop
  | bigInt (i : Int128) : DenotesInteger (.bigInt i) i
  | number {x : Finite64} {i : Int128} (hvalue : x.magnitude.toRat = i.val.natAbs)
      (hsign : x.negative = decide (i.val < 0) ∨ i.val = 0) :
      DenotesInteger (.number (.finite x)) i
  | string {s : String} {i : Int128} (h : Int128.read? s = some i) : DenotesInteger (.string s) i

/-- Integers of 128 bits with one value are one. -/
theorem Int128.ext_val {i j : Int128} (h : i.val = j.val) : i = j := by
  cases i
  cases j
  cases h
  rfl

/-- A value stands for one integer at most. -/
theorem Value.DenotesInteger.unique {v : Value} {i j : Int128} (hi : v.DenotesInteger i)
    (hj : v.DenotesInteger j) : i = j := by
  cases hi with
  | bigInt i =>
    cases hj
    rfl
  | number hvalue hsign =>
    cases hj with
    | number hvalue' hsign' =>
      have habs : i.val.natAbs = j.val.natAbs := by exact_mod_cast hvalue.symm.trans hvalue'
      apply Int128.ext_val
      rcases hsign with hsign | hzero
      · rcases hsign' with hsign' | hzero'
        · have hsame : (i.val < 0) ↔ (j.val < 0) := by
            rw [← decide_eq_decide, ← hsign, ← hsign']
          omega
        · omega
      · omega
  | string h =>
    cases hj with
    | string h' => exact Option.some.inj (h.symm.trans h')

/-- A number denotes the integer that it is. -/
theorem Floating.denotesInteger {x : Binary64} {i : Int128} (h : x.toInt128? = some i) :
    (Value.number x).DenotesInteger i := by
  obtain ⟨y, rfl, hvalue⟩ := Floating.toInt128?_eq_some_iff.1 h
  obtain ⟨habs, hsign⟩ := Floating.Finite.value_eq_iff.1 hvalue
  exact .number habs hsign

/-- What a field of integers admits stands for the integer that it is admitted as. -/
theorem Admission.denotesInteger {path : String} {literals : Option (List Int128)} {v : Value}
    {i : Int128} (h : bigInt path literals v = .ok i) : v.DenotesInteger i := by
  cases v with
  | bigInt j =>
    obtain rfl := bigInt_eq_ok h
    exact .bigInt j
  | number x =>
    rw [bigInt] at h
    split at h
    · cases h
    · rename_i found hfound
      split at h
      · obtain rfl := Except.ok.inj h
        exact Floating.denotesInteger hfound
      · cases h
  | _ => cases h

namespace Query

/-! ## Where integers are -/

/-- The places that hold integers: a field, the elements of an array, and a position of a tuple. -/
inductive Place.HoldsIntegers : Place → Prop
  | field (literals : Option (List Int128)) : HoldsIntegers (.field (.bigInt literals))
  | elements (separator : Char) : HoldsIntegers (.field (.array (.scalar .bigInt) separator))
  | position : HoldsIntegers (.position .bigInt)

namespace Place.HoldsIntegers

variable {place : Place} {storage : Storage}

/-- A clause on integers has tags for them, whatever the form they are stored in. -/
theorem content (h : place.HoldsIntegers) {path : String} {kind : KindName} {fresh : Matcher}
    (hmatcher : place.matcher path storage = .ok (kind, fresh)) :
    ∃ content : TagContent, fresh = .tag { content } ∧ content.token = TagContent.bigIntToken := by
  cases h with
  | field literals =>
    obtain rfl := Option.some.inj (matcher_field hmatcher)
    exact ⟨.bigInt, rfl, rfl⟩
  | elements separator =>
    cases storage with
    | hash =>
      obtain rfl := Option.some.inj (matcher_field hmatcher)
      exact ⟨.element .bigInt, rfl, rfl⟩
    | json =>
      obtain rfl := Option.some.inj (matcher_field hmatcher)
      exact ⟨.bigInt, rfl, rfl⟩
  | position =>
    obtain rfl := (Prod.mk.inj (Except.ok.inj hmatcher)).2
    exact ⟨.bigInt, rfl, rfl⟩

/-- What is stored for an integer is its numeral. -/
theorem text_eq (h : place.HoldsIntegers) {v : Value} {i : Int128} {text : String}
    (hdenotes : v.DenotesInteger i) (hkept : place.KeepsText storage v text) : text = i.text := by
  have of_admitted {path : String} {literals : Option (List Int128)} {j : Int128}
      (hj : Admission.bigInt path literals v = .ok j) : j.text = i.text :=
    congrArg Int128.text ((Admission.denotesInteger hj).unique hdenotes)
  have hnull : v.isNull = false := by
    cases hdenotes <;> rfl
  have of_tree {path : String} {literals : Option (List Int128)} {json : Json}
      (htree : Tree.encodeKind path (.bigInt literals) v = .ok json)
      (htext : tagText? json = some text) : text = i.text := by
    rw [Tree.encodeKind, hnull] at htree
    obtain ⟨j, hj, rfl⟩ := map_eq_ok.1 htree
    rw [← of_admitted hj]
    exact (Option.some.inj htext).symm
  cases hkept with
  | field hkind hencode =>
    cases h with
    | field literals =>
      obtain ⟨j, hj, rfl⟩ := map_eq_ok.1 (kindText_of_encodeKind hencode)
      exact of_admitted hj
    | elements separator => exact absurd rfl (hkind _ _)
  | element hencode =>
    cases h with
    | elements separator =>
      obtain ⟨_, htext, _⟩ := Hash.elementText_eq_ok hencode
      obtain ⟨j, hj, rfl⟩ := map_eq_ok.1 htext
      exact of_admitted hj
  | tree hstores htext =>
    cases hstores with
    | tree hkind hencode =>
      cases h with
      | field literals => exact of_tree hencode htext
      | elements separator => exact absurd rfl (hkind _ _)
    | element hencode =>
      cases h with
      | elements separator =>
        rw [Tree.encodeElement, Tree.encodeScalar_eq] at hencode
        exact of_tree hencode htext
    | position hencode =>
      cases h with
      | position =>
        rw [Tree.encodeElement, Tree.encodeScalar_eq] at hencode
        exact of_tree hencode htext

end Place.HoldsIntegers

/-! ## The token of an integer -/

/-- A value that becomes a token stands for an integer. The token is the numeral of the integer,
except that a text stays as it is. -/
theorem TagContent.bigIntToken_eq_ok {v : Value} {text : String}
    (h : bigIntToken v = .ok text) :
    ∃ i, v.DenotesInteger i ∧ (text = i.text ↔ ∀ s, v = .string s → s = i.text) := by
  cases v with
  | bigInt i =>
    refine ⟨i, .bigInt i, ?_⟩
    simp [← Except.ok.inj h]
  | number x =>
    rw [bigIntToken] at h
    split at h
    · rename_i i hi
      refine ⟨i, Floating.denotesInteger hi, ?_⟩
      simp [← Except.ok.inj h]
    · cases h
  | string s =>
    rw [bigIntToken] at h
    split at h
    · rename_i hread
      obtain ⟨i, hi⟩ := Option.isSome_iff_exists.1 hread
      refine ⟨i, .string hi, ?_⟩
      simp [← Except.ok.inj h]
    · cases h
  | _ => cases h

/-- An accepted call for a value leaves the token of the value last in a tag clause. -/
theorem Matcher.Accepts.last_token {clause : TagClause} {v : Value} {operator : Operator}
    {next : Matcher} (h : Accepts operator (.tag clause) next)
    (hoperator : operator = .eq v ∨ operator = .or v) :
    ∃ (later : TagClause) (token : String), next = .tag later ∧ clause.token v = .ok token ∧
      later.tokens.getLast? = some token := by
  rcases hoperator with rfl | rfl
  · cases h with
    | tagEq htoken => exact ⟨_, _, rfl, htoken, rfl⟩
  · cases h with
    | tagOr htoken => exact ⟨_, _, rfl, htoken, List.getLast?_concat⟩

/-- A clause on integers, whatever was called on it before, that accepts a value has a last token,
and the value stands for an integer. What is stored for this integer at the place of the clause is
its numeral. The token is the numeral too, unless the value is a text with another spelling. -/
theorem bigInt_token_iff {schema : Schema} {storage : Storage} {path : String} {kind : KindName}
    {fresh next : Matcher} {place : Place} {operators : List Operator} {operator : Operator}
    {v : Value} (hresolve : resolve schema storage path = .ok (kind, fresh))
    (hplace : Place.follow path (.level schema.fields) (segments path) = .ok place)
    (hintegers : place.HoldsIntegers) (hoperator : operator = .eq v ∨ operator = .or v)
    (hon : (Matcher.operate operator).on (fresh.after operators) = (.ok (), next)) :
    ∃ (clause : TagClause) (token : String) (i : Int128),
      next = .tag clause ∧ clause.tokens.getLast? = some token ∧ v.DenotesInteger i ∧
      (∀ (w : Value) (text : String), w.DenotesInteger i → place.KeepsText storage w text →
        text = i.text) ∧
      (unescapeText token = i.text ↔ ∀ s, v = .string s → s = i.text) := by
  obtain ⟨other, hfollow, _, hmatcher⟩ := resolve_eq_ok hresolve
  obtain rfl : other = place := Except.ok.inj (hfollow.symm.trans hplace)
  obtain ⟨content, rfl, hcontent⟩ := hintegers.content hmatcher
  rw [after_tag] at hon
  have haccepts := (Matcher.operate_allOrNothing _ _).of_ok hon
  obtain ⟨clause, token, hnext, htoken, hlast⟩ := haccepts.last_token hoperator
  obtain ⟨text, htext, rfl⟩ := map_eq_ok.1 htoken
  rw [hcontent] at htext
  obtain ⟨i, hdenotes, hiff⟩ := TagContent.bigIntToken_eq_ok htext
  refine ⟨clause, escapeText text, i, hnext, hlast, hdenotes, ?_, ?_⟩
  · intro w stored hw hkept
    exact hintegers.text_eq hw hkept
  · rw [unescapeText_escapeText]
    exact hiff

/-! ### Codes with zeros in front -/

/-- Things with integers for codes. -/
def codesSchema : Schema where
  fields := [("code", .ofKind (.bigInt none))]
  references := []
  relations := []
  warnings := []

/-- Seven as an integer of 128 bits. -/
def sevenInteger : Int128 := ⟨7, by decide, by decide⟩

/-- The path of a code is that of an integer. -/
theorem resolve_codes :
    resolve codesSchema .hash "code" = .ok (.scalar .bigInt, .tag { content := .bigInt }) := by
  decide

/-- The path of a code leads to its field. -/
theorem follow_codes :
    Place.follow "code" (.level codesSchema.fields) (segments "code") =
      .ok (.field (.bigInt none)) := rfl

/-- The call for a text of seven behind one for seven itself. -/
theorem operate_codes {s : String} (h : Int128.read? s = some sevenInteger) :
    (Matcher.operate (.or (.string s))).on
        ((Matcher.tag { content := .bigInt }).after [.eq (.bigInt sevenInteger)]) =
      (.ok (), .tag
        { content := .bigInt, tokens := [escapeText sevenInteger.text, escapeText s] }) := by
  have hfirst : (Matcher.tag { content := .bigInt }).after [.eq (.bigInt sevenInteger)] =
      .tag { content := .bigInt, tokens := [escapeText sevenInteger.text] } := after_tag _ _
  have htoken : TagClause.token
      { content := .bigInt, tokens := [escapeText sevenInteger.text] } (.string s) =
        .ok (escapeText s) := by
    unfold TagClause.token TagContent.token TagContent.bigIntToken
    simp only [h, Option.isSome_some, if_true]
    rfl
  rw [hfirst, operate_or_tag htoken]
  rfl

/-- The text `7` is what is stored for seven, and what the clause looks for. -/
theorem bigInt_token_iff_codes :
    (Place.field (.bigInt none)).KeepsText .hash (.bigInt sevenInteger) "7" ∧
      ∃ (next : Matcher) (clause : TagClause) (token : String),
        (Matcher.operate (.or (.string "7"))).on
            ((Matcher.tag { content := .bigInt }).after [.eq (.bigInt sevenInteger)]) =
          (.ok (), next) ∧
        next = .tag clause ∧ clause.tokens.getLast? = some token ∧
        unescapeText token = "7" := by
  have hread : Int128.read? "7" = some sevenInteger := by decide
  have hstored : (Place.field (.bigInt none)).KeepsText .hash (.bigInt sevenInteger) "7" :=
    @Place.KeepsText.field "code" _ _ _ nofun (by decide)
  have hon := operate_codes hread
  obtain ⟨clause, token, i, hnext, hlast, hdenotes, hkept, hiff⟩ :=
    bigInt_token_iff resolve_codes follow_codes (.field none) (.inr rfl) hon
  have hi : i = sevenInteger := hdenotes.unique (.string hread)
  have htext : i.text = "7" := by
    rw [hi]
    decide
  refine ⟨hstored, _, clause, token, hon, hnext, hlast, ?_⟩
  rw [← htext, hiff]
  rintro s ⟨⟩
  exact htext.symm

/-- The text `007` stands for seven and is accepted, and the clause looks for `007`. -/
theorem bigInt_token_misspelled :
    ¬ ∀ (schema : Schema) (storage : Storage) (path : String) (kind : KindName)
        (fresh : Matcher) (place : Place) (operators : List Operator) (operator : Operator)
        (v : Value) (clause : TagClause) (token : String) (i : Int128),
      resolve schema storage path = .ok (kind, fresh) →
      Place.follow path (.level schema.fields) (segments path) = .ok place →
      place.HoldsIntegers → (operator = .eq v ∨ operator = .or v) →
      (Matcher.operate operator).on (fresh.after operators) = (.ok (), .tag clause) →
      clause.tokens.getLast? = some token → v.DenotesInteger i → unescapeText token = i.text := by
  intro hall
  have hread : Int128.read? "007" = some sevenInteger := by decide
  have hsame := hall codesSchema .hash "code" _ _ _ _ _ _ _ (escapeText "007") _
    resolve_codes follow_codes (.field none) (.inr rfl) (operate_codes hread) rfl
    (.string hread)
  rw [unescapeText_escapeText] at hsame
  exact absurd hsame (by decide)

end Query

end DocumentSchema
