import DocumentSchema.Proofs.Store.Pages

/-!
# Requests read back from their arguments

Behind the name of the index and the query the arguments of a request have up to four sections: the
order of the results, their page, the parameters, and the dialect. Nothing marks the end of a section,
and a field, the name of a parameter or the bytes of a vector may be a keyword. Still no request is
taken for another one. `requestOf?` reads by position: where a section may begin it looks for the
keyword of that section, and takes what belongs to the section whatever it is; the section of the
parameters says how many of them follow. This gives every request back (`requestOf?_arguments`), so
requests with the same arguments are the same and go to the same index (`arguments_unambiguous`).
-/

set_option autoImplicit false

namespace DocumentSchema.Store

open Query (Page Request SortOrder)

/-! ## Reading by position -/

/-- Reads what stands behind a keyword, if the keyword stands in front, and gives it with the
arguments that follow. -/
def sectionOf? {α : Type} (keyword : String) (read : List Bytes → Option (α × List Bytes)) :
    List Bytes → Option (Option α × List Bytes)
  | [] => some (none, [])
  | first :: rest =>
    if first = utf8 keyword then (read rest).map fun found => (some found.1, found.2)
    else some (none, first :: rest)

/-- The number that an argument spells. -/
def numberOf? (bytes : Bytes) : Option Nat :=
  (textOf? bytes).bind fun text => Decimal.readUnsigned? text.toList

/-- The order that an argument names. -/
def orderOf? (bytes : Bytes) : Option SortOrder :=
  if bytes = utf8 "ASC" then some .ascending
  else if bytes = utf8 "DESC" then some .descending
  else none

/-- Reads a field and an order. -/
def sortOf? : List Bytes → Option ((String × SortOrder) × List Bytes)
  | field :: order :: rest => do
    let field ← textOf? field
    let order ← orderOf? order
    return ((field, order), rest)
  | _ => none

/-- Reads an offset and a count. -/
def extentOf? : List Bytes → Option (Page × List Bytes)
  | offset :: count :: rest => do
    let offset ← readCountBytes? offset
    let count ← readCountBytes? count
    return (⟨offset, count⟩, rest)
  | _ => none

/-- Reads a number of parameters, each of them a name and its bytes. -/
def bindingsOf? : Nat → List Bytes → Option (Entries Bytes × List Bytes)
  | 0, rest => some ([], rest)
  | count + 1, name :: bytes :: rest => do
    let name ← textOf? name
    let (others, rest) ← bindingsOf? count rest
    return ((name, bytes) :: others, rest)
  | _ + 1, _ => none

/-- Reads how many arguments the parameters take, and the parameters. -/
def parametersOf? : List Bytes → Option (Entries Bytes × List Bytes)
  | total :: rest => do
    let total ← numberOf? total
    bindingsOf? (total / 2) rest
  | [] => none

/-- The dialect that arguments begin with, and the others. -/
def dialectOf? : List Bytes → Option (UInt32 × List Bytes)
  | dialect :: rest => (numberOf? dialect).map fun n => (UInt32.ofNat n, rest)
  | [] => none

/-- Reads a request and the name of its index from arguments, all of which it has to use. -/
def requestOf? : List Bytes → Option (String × Request)
  | index :: query :: rest => do
    let index ← textOf? index
    let query ← textOf? query
    let (sort, rest) ← sectionOf? "SORTBY" sortOf? rest
    let (page, rest) ← sectionOf? "LIMIT" extentOf? rest
    let (parameters, rest) ← sectionOf? "PARAMS" parametersOf? rest
    let (dialect, rest) ← sectionOf? "DIALECT" dialectOf? rest
    if rest.isEmpty then
      return (index, { query, dialect, parameters := parameters.getD [], sort, page })
    else none
  | _ => none

/-! ## Values in arguments -/

/-- A number is read from its text. -/
theorem numberOf?_natText (n : Nat) : numberOf? (utf8 (Decimal.natText n)) = some n := by
  rw [numberOf?, textOf?_utf8, Option.bind_some, Decimal.toList_natText,
    Decimal.readUnsigned?_numeral]

/-- An order is read from its name. -/
theorem orderOf?_label (order : SortOrder) : orderOf? (utf8 order.label) = some order := by
  cases order with
  | ascending => exact if_pos rfl
  | descending =>
    have hne : utf8 "DESC" ≠ utf8 "ASC" := by
      rw [Ne, utf8_inj]
      decide
    show orderOf? (utf8 "DESC") = _
    rw [orderOf?, if_neg hne, if_pos rfl]

/-- The parameters are read back one by one, whatever follows them. -/
theorem bindingsOf?_flatMap (parameters : Entries Bytes) (rest : List Bytes) :
    bindingsOf? parameters.length ((parameters.flatMap fun e => [utf8 e.1, e.2]) ++ rest) =
      some (parameters, rest) := by
  induction parameters with
  | nil => rfl
  | cons first others ih =>
    obtain ⟨name, bytes⟩ := first
    show (textOf? (utf8 name) >>= fun name =>
      bindingsOf? others.length ((others.flatMap fun e => [utf8 e.1, e.2]) ++ rest) >>= _) = _
    rw [textOf?_utf8, ih]
    rfl

/-! ## Sections -/

variable {α : Type} {keyword : String} {read : List Bytes → Option (α × List Bytes)}

/-- A section is not there if the arguments do not start with its keyword. -/
theorem sectionOf?_absent {arguments : List Bytes} (h : arguments.head? ≠ some (utf8 keyword)) :
    sectionOf? keyword read arguments = some (none, arguments) := by
  cases arguments with
  | nil => rfl
  | cons first rest => exact if_neg fun hfirst => h (congrArg some hfirst)

/-- A section that is there is read, whatever follows it. -/
theorem sectionOf?_present {front rest : List Bytes} {a : α}
    (hread : read (front ++ rest) = some (a, rest)) :
    sectionOf? keyword read (utf8 keyword :: front ++ rest) = some (some a, rest) := by
  rw [List.cons_append, sectionOf?, if_pos rfl, hread]
  rfl

/-- The order of the results, or none, is read with any rest that begins otherwise. -/
theorem sectionOf?_sortArguments (sort : Option (String × SortOrder)) {rest : List Bytes}
    (hrest : rest.head? ≠ some (utf8 "SORTBY")) :
    sectionOf? "SORTBY" sortOf? (Request.sortArguments sort ++ rest) = some (sort, rest) := by
  cases sort with
  | none => exact sectionOf?_absent hrest
  | some sort =>
    obtain ⟨field, order⟩ := sort
    apply sectionOf?_present
    show (textOf? (utf8 field) >>= fun field => orderOf? (utf8 order.label) >>= _) = _
    rw [textOf?_utf8, orderOf?_label]
    rfl

/-- The page, or none, is read with any rest that begins otherwise. -/
theorem sectionOf?_pageArguments (page : Option Page) {rest : List Bytes}
    (hrest : rest.head? ≠ some (utf8 "LIMIT")) :
    sectionOf? "LIMIT" extentOf? (Request.pageArguments page ++ rest) = some (page, rest) := by
  cases page with
  | none => exact sectionOf?_absent hrest
  | some page =>
    apply sectionOf?_present
    show (readCountBytes? (utf8 (Decimal.natText page.offset.toNat)) >>= fun offset =>
      readCountBytes? (utf8 (Decimal.natText page.count.toNat)) >>= _) = _
    rw [readCountBytes?_natText, readCountBytes?_natText]
    rfl

/-- No section of parameters stands for no parameters. -/
theorem sectionOf?_parameterArguments (parameters : Entries Bytes) {rest : List Bytes}
    (hrest : rest.head? ≠ some (utf8 "PARAMS")) :
    ∃ found, sectionOf? "PARAMS" parametersOf? (Request.parameterArguments parameters ++ rest) =
      some (found, rest) ∧ found.getD [] = parameters := by
  unfold Request.parameterArguments
  split
  next hnone =>
    refine ⟨none, sectionOf?_absent hrest, ?_⟩
    exact (List.isEmpty_iff.1 hnone).symm
  next =>
    refine ⟨some parameters, ?_, rfl⟩
    apply sectionOf?_present
    show (numberOf? (utf8 (Decimal.natText (parameters.length * 2))) >>= fun total =>
      bindingsOf? (total / 2) ((parameters.flatMap fun e => [utf8 e.1, e.2]) ++ rest)) = _
    rw [numberOf?_natText, Option.bind_eq_bind, Option.bind_some,
      Nat.mul_div_cancel _ (by decide), bindingsOf?_flatMap]

/-- The dialect, or none, is read at the end. -/
theorem sectionOf?_dialectArguments (dialect : Option UInt32) :
    sectionOf? "DIALECT" dialectOf? (Request.dialectArguments dialect) = some (dialect, []) := by
  cases dialect with
  | none => rfl
  | some dialect =>
    have hread : dialectOf? ([utf8 (Decimal.natText dialect.toNat)] ++ []) = some (dialect, []) := by
      show (numberOf? _).map _ = _
      rw [numberOf?_natText, Option.map_some, UInt32.ofNat_toNat]
      rfl
    exact sectionOf?_present hread

/-! ## Where sections begin -/

/-- Arguments that are empty or begin with a keyword. -/
def OpensWith (keyword : String) (arguments : List Bytes) : Prop :=
  ∀ first ∈ arguments.head?, first = utf8 keyword

/-- The arguments of a page open with their keyword. -/
theorem opensWith_pageArguments (page : Option Page) :
    OpensWith "LIMIT" (Request.pageArguments page) := by
  intro first hfirst
  cases page with
  | none => exact nomatch hfirst
  | some page => exact (Option.some.inj hfirst).symm

/-- The arguments of parameters open with their keyword. -/
theorem opensWith_parameterArguments (parameters : Entries Bytes) :
    OpensWith "PARAMS" (Request.parameterArguments parameters) := by
  intro first hfirst
  unfold Request.parameterArguments at hfirst
  split at hfirst
  · exact nomatch hfirst
  · exact (Option.some.inj hfirst).symm

/-- The arguments of a dialect open with their keyword. -/
theorem opensWith_dialectArguments (dialect : Option UInt32) :
    OpensWith "DIALECT" (Request.dialectArguments dialect) := by
  intro first hfirst
  cases dialect with
  | none => exact nomatch hfirst
  | some dialect => exact (Option.some.inj hfirst).symm

/-- A section does not begin with the keyword of another one. -/
theorem OpensWith.head?_ne {opening keyword : String} {arguments : List Bytes}
    (h : OpensWith opening arguments) (hne : keyword ≠ opening) :
    arguments.head? ≠ some (utf8 keyword) :=
  fun hhead => hne (utf8_inj.1 (h _ hhead))

/-- What no part begins with, the whole does not begin with. -/
theorem head?_append_ne {front rest : List Bytes} {a : Bytes} (hfront : front.head? ≠ some a)
    (hrest : rest.head? ≠ some a) : (front ++ rest).head? ≠ some a := by
  rw [List.head?_append]
  cases hhead : front.head? with
  | none => exact hrest
  | some b =>
    rw [hhead] at hfront
    exact hfront

/-! ## Requests -/

/-- A request and the name of its index are read back from the arguments of the request. -/
theorem requestOf?_arguments (r : Request) (index : String) :
    requestOf? (r.arguments index) = some (index, r) := by
  have harguments : r.arguments index =
      utf8 index :: utf8 r.query :: (Request.sortArguments r.sort ++ (Request.pageArguments r.page ++
        (Request.parameterArguments r.parameters ++ Request.dialectArguments r.dialect))) := by
    unfold Request.arguments
    simp only [List.append_assoc, List.cons_append, List.nil_append]
  have hopenPage := opensWith_pageArguments r.page
  have hopenParameters := opensWith_parameterArguments r.parameters
  have hopenDialect := opensWith_dialectArguments r.dialect
  have hsort := sectionOf?_sortArguments r.sort
    (head?_append_ne (hopenPage.head?_ne (by decide))
      (head?_append_ne (hopenParameters.head?_ne (by decide)) (hopenDialect.head?_ne (by decide))))
  have hpage := sectionOf?_pageArguments r.page
    (head?_append_ne (hopenParameters.head?_ne (by decide))
      (hopenDialect.head?_ne (by decide)))
  obtain ⟨found, hparameters, hfound⟩ := sectionOf?_parameterArguments r.parameters
    (hopenDialect.head?_ne (by decide))
  have hdialect := sectionOf?_dialectArguments r.dialect
  rw [harguments, requestOf?, textOf?_utf8, textOf?_utf8]
  simp only [Option.bind_eq_bind, Option.bind_some, hsort, hpage, hparameters, hdialect, hfound]
  rfl

/-- The arguments of a request are read back as the request and the name of its index, and no other
request and no other name have the same arguments. -/
theorem arguments_unambiguous (r : Request) (index : String) :
    requestOf? (r.arguments index) = some (index, r) ∧
      ∀ (other : Request) (name : String),
        other.arguments name = r.arguments index ↔ name = index ∧ other = r := by
  refine ⟨requestOf?_arguments r index, ?_⟩
  intro other name
  constructor
  · intro hsame
    have hread := congrArg requestOf? hsame
    rw [requestOf?_arguments, requestOf?_arguments] at hread
    exact Prod.mk.inj (Option.some.inj hread)
  · rintro ⟨rfl, rfl⟩
    rfl

end DocumentSchema.Store
