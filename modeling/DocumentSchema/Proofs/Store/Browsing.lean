import DocumentSchema.Proofs.Store.Pages

/-!
# Page after page

Who wants to see everything that an index covers asks for one page after the other, up to the first
that is empty. The pages are cut from the same list, since a search changes nothing but the log, so
together they are the reply without pages (`Store.browsing_complete`). Every run ends: as long as a
page holds something, less is left for the pages after it.
-/

set_option autoImplicit false

namespace DocumentSchema

open Decimal (natText)

namespace Store

/-- A search for everything that an index covers. -/
def wholeRequest (name : String) : List Bytes := [utf8 name, utf8 "*"]

/-- A search for one of the pages of everything that an index covers. -/
def pageRequest (name : String) (size number : Nat) : List Bytes :=
  [utf8 name, utf8 "*", utf8 "LIMIT", utf8 (natText (number * size)), utf8 (natText size)]

/-- Searches for one page after the other, from the page of a number on, up to the first empty one:
the store before them, the replies, and the store after them. -/
inductive Browsing (name : String) (size : Nat) : Nat → Store → List Reply → Store → Prop
  | last {number : Nat} {store next : Store} {reply : Reply}
      (h : store.search (pageRequest name size number) = (.ok reply, next))
      (hempty : reply.documents = []) : Browsing name size number store [reply] next
  | page {number : Nat} {store next last : Store} {reply : Reply} {replies : List Reply}
      (h : store.search (pageRequest name size number) = (.ok reply, next))
      (hsome : reply.documents ≠ []) (hrest : Browsing name size (number + 1) next replies last) :
      Browsing name size number store (reply :: replies) last

/-- The store after searches for some pages. -/
def browsed (store : Store) (name : String) (size number count : Nat) : Store :=
  { store with
    searches := store.searches ++ (List.range' number count).map (pageRequest name size) }

/-- What a store gives does not depend on chance. -/
theorem Browsing.unique {name : String} {size number : Nat} {store last last' : Store}
    {replies replies' : List Reply} (h : Browsing name size number store replies last)
    (h' : Browsing name size number store replies' last') : replies' = replies ∧ last' = last := by
  induction h generalizing replies' last' with
  | last hsearch hempty =>
    cases h' with
    | last hsearch' _ =>
      obtain ⟨hreply, rfl⟩ := Prod.mk.inj (hsearch.symm.trans hsearch')
      exact ⟨congrArg (fun r => [r]) (Except.ok.inj hreply).symm, rfl⟩
    | page hsearch' hsome _ =>
      obtain ⟨hreply, _⟩ := Prod.mk.inj (hsearch.symm.trans hsearch')
      exact absurd (Except.ok.inj hreply ▸ hempty) hsome
  | page hsearch hsome _ ih =>
    cases h' with
    | last hsearch' hempty =>
      obtain ⟨hreply, _⟩ := Prod.mk.inj (hsearch.symm.trans hsearch')
      exact absurd (Except.ok.inj hreply ▸ hempty) hsome
    | page hsearch' _ hrest =>
      obtain ⟨hreply, rfl⟩ := Prod.mk.inj (hsearch.symm.trans hsearch')
      obtain rfl := Except.ok.inj hreply
      obtain ⟨rfl, rfl⟩ := ih hrest
      exact ⟨rfl, rfl⟩

section

variable {store : Store} {name : String} {index : List String} {size : Nat}

/-- A page is read from a request for it as long as its start is a count. -/
theorem pageOf_pageRequest (hname : name ≠ "LIMIT") {number : Nat} (hsize : size < 2 ^ 64)
    (hstart : number * size < 2 ^ 64) :
    ∃ page : Query.Page, pageOf (pageRequest name size number) = .ok (some page) ∧
      page.offset.toNat = number * size ∧ page.count.toNat = size := by
  have hoffset : (UInt64.ofNat (number * size)).toNat = number * size :=
    UInt64.toNat_ofNat_of_lt' hstart
  have hcount : (UInt64.ofNat size).toNat = size := UInt64.toNat_ofNat_of_lt' hsize
  have hread := pageOf_pageArguments ⟨UInt64.ofNat (number * size), UInt64.ofNat size⟩ []
  rw [List.append_nil, Query.Request.pageArguments, hoffset, hcount] at hread
  refine ⟨⟨UInt64.ofNat (number * size), UInt64.ofNat size⟩, ?_, hoffset, hcount⟩
  rw [pageRequest, pageOf_pass (Query.Request.utf8_ne_limit hname),
    pageOf_pass (Query.Request.utf8_ne_limit (by decide))]
  exact hread

/-- A page is cut from all that the index covers. -/
theorem search_pageRequest (hindex : store.indexes.get? name = some index) (hname : name ≠ "LIMIT")
    {number : Nat} (hsize : size < 2 ^ 64) (hstart : number * size < 2 ^ 64) :
    store.search (pageRequest name size number) =
      (.ok ⟨(store.matching index).length,
          ((store.matching index).drop (number * size)).take size⟩,
        store.logged (pageRequest name size number)) := by
  obtain ⟨page, hpage, hoffset, hcount⟩ := pageOf_pageRequest hname hsize hstart
  have hsearch := search_of_page hindex hpage
  rw [onPage, hoffset, hcount] at hsearch
  exact hsearch

/-- The searches for a page and for those after it are the searches from this page on. -/
theorem browsed_logged (store : Store) (name : String) (size number count : Nat) :
    (store.logged (pageRequest name size number)).browsed name size (number + 1) count =
      store.browsed name size number (count + 1) := by
  unfold browsed logged
  rw [List.range'_succ, List.map_cons, List.append_assoc, List.singleton_append]

/-- The start of the page after one that is not empty is a count too. -/
theorem next_start_lt {number found : Nat} (hmore : number * size < found)
    (hfits : found ≤ 2 ^ 63) (hsize : size < 2 ^ 64) : (number + 1) * size < 2 ^ 64 := by
  rw [Nat.succ_mul]
  cases number with
  | zero => omega
  | succ number =>
    have hbefore : size ≤ (number + 1) * size := Nat.le_mul_of_pos_left size (Nat.succ_pos _)
    omega

/-- From the start of a page on, all that is left is found, page after page. -/
theorem exists_browsing (hindex : store.indexes.get? name = some index) (hname : name ≠ "LIMIT")
    (hpositive : 0 < size) (hsize : size < 2 ^ 64)
    (hfits : (store.matching index).length ≤ 2 ^ 63) (number : Nat)
    (hstart : number * size < 2 ^ 64) :
    ∃ replies, Browsing name size number store replies
        (store.browsed name size number replies.length) ∧
      replies.flatMap Reply.documents = (store.matching index).drop (number * size) ∧
      ∀ reply ∈ replies, reply.total = (store.matching index).length := by
  induction hleft : (store.matching index).length - number * size using Nat.strong_induction_on
    generalizing store number with
  | _ left ih =>
    have hsearch := search_pageRequest hindex hname hsize hstart
    rcases Nat.lt_or_ge (number * size) (store.matching index).length with hmore | hdone
    · have hnext : (number + 1) * size = number * size + size := Nat.succ_mul _ _
      obtain ⟨replies, hrest, hdocuments, htotal⟩ :=
        @ih ((store.matching index).length - (number + 1) * size) (by omega)
          (store.logged (pageRequest name size number)) hindex hfits (number + 1)
          (next_start_lt hmore hfits hsize) rfl
      have hsome : ((store.matching index).drop (number * size)).take size ≠ [] := by
        apply List.ne_nil_of_length_pos
        rw [List.length_take, List.length_drop]
        omega
      rw [browsed_logged] at hrest
      refine ⟨_ :: replies, .page hsearch hsome hrest, ?_, List.forall_mem_cons.2 ⟨rfl, htotal⟩⟩
      rw [List.flatMap_cons, hdocuments, hnext, ← List.drop_drop]
      exact List.take_append_drop size _
    · have hempty : (store.matching index).drop (number * size) = [] :=
        List.drop_eq_nil_of_le hdone
      rw [hempty, List.take_nil] at hsearch
      refine ⟨[_], .last hsearch rfl, hempty.symm, ?_⟩
      exact List.forall_mem_singleton.2 rfl

/-- Searches for page after page of an index come to an end, with the same replies whenever they
are made. Together the pages are the reply to the search for everything. It lists each document of
the index's form under its key start once, in ascending order of the keys, and every reply says how
many these are. Of the store the searches change nothing but the log. The bound on the documents is
beyond what an address space holds; it keeps the start of the empty page a count. -/
theorem browsing_complete {size : UInt64} (hdocuments : store.documents.Ordered)
    (hmemory : store.documents.length ≤ 2 ^ 63) (hindex : store.indexes.get? name = some index)
    (hname : name ≠ "LIMIT") (hsize : 0 < size) :
    ∃ (whole : Reply) (replies : List Reply),
      store.search (wholeRequest name) = (.ok whole, store.logged (wholeRequest name)) ∧
      Browsing name size.toNat 0 store replies
        (store.browsed name size.toNat 0 replies.length) ∧
      (∀ others last, Browsing name size.toNat 0 store others last →
        others = replies ∧ last = store.browsed name size.toNat 0 replies.length) ∧
      replies.flatMap Reply.documents = whole.documents ∧
      (whole.documents.map Prod.fst).Pairwise (· < ·) ∧
      (∀ key stored, (key, stored) ∈ whole.documents ↔
        store.documents.get? key = some stored ∧
          (startOf index).toList <+: key.toList ∧ stored.isTree = treesOf index) ∧
      whole.total = whole.documents.length ∧ ∀ reply ∈ replies, reply.total = whole.total := by
  have hfits : (store.matching index).length ≤ 2 ^ 63 :=
    (List.length_filter_le _ _).trans hmemory
  have hpositive : 0 < size.toNat := UInt64.lt_iff_toNat_lt.1 hsize
  obtain ⟨replies, hbrowsing, hreplies, htotal⟩ :=
    exists_browsing hindex hname hpositive size.toNat_lt hfits 0 (by omega)
  have hpage : pageOf (wholeRequest name) = .ok none := by
    rw [wholeRequest, pageOf_pass (Query.Request.utf8_ne_limit hname),
      pageOf_pass (Query.Request.utf8_ne_limit (by decide))]
    rfl
  rw [Nat.zero_mul, List.drop_zero] at hreplies
  refine ⟨⟨_, store.matching index⟩, replies, search_of_page hindex hpage, hbrowsing,
    fun others last h => hbrowsing.unique h, hreplies, ?_,
    fun key stored => mem_matching_iff hdocuments, rfl, htotal⟩
  exact Entries.ordered_iff_keys.1 (hdocuments.filter _)

end

/-! ### Three songs, two on a page -/

/-- The arguments of an index of songs in hashes. -/
def songIndex : List String :=
  ["idx:song", "ON", "HASH", "PREFIX", "1", "song:", "SCHEMA", "title", "TEXT"]

/-- Three songs in hashes, one in a tree, and a disc, with the index of songs. -/
def songStore : Store where
  documents := [("disc:1", .hash [("title", "Live")]), ("song:1", .hash [("title", "Air")]),
    ("song:2", .hash [("title", "Blue")]), ("song:3", .tree .null),
    ("song:4", .hash [("title", "Coda")])]
  indexes := [("idx:song", songIndex)]

/-- The songs are in the order of their keys. -/
theorem songStore_ordered : songStore.documents.Ordered := by
  unfold Entries.Ordered
  decide

/-- The index has the three songs in hashes, neither the disc nor the song in a tree. -/
theorem matching_songs :
    songStore.matching songIndex = [("song:1", .hash [("title", "Air")]),
      ("song:2", .hash [("title", "Blue")]), ("song:4", .hash [("title", "Coda")])] := by
  have hstart : startOf songIndex = "song:" := by decide +kernel
  have htrees : treesOf songIndex = false := by decide +kernel
  rw [matching_eq, hstart, htrees]
  rfl

/-- The first page has two songs and the second one, and both say that there are three. -/
theorem browsing_complete_songs :
    ∃ replies, Browsing "idx:song" 2 0 songStore replies
        (songStore.browsed "idx:song" 2 0 replies.length) ∧
      replies.flatMap Reply.documents = [("song:1", .hash [("title", "Air")]),
        ("song:2", .hash [("title", "Blue")]), ("song:4", .hash [("title", "Coda")])] ∧
      ∀ reply ∈ replies, reply.total = 3 := by
  have hindex : songStore.indexes.get? "idx:song" = some songIndex := rfl
  have htwo : (0 : UInt64) < 2 := by decide
  obtain ⟨whole, replies, hwhole, hbrowsing, _, hdocuments, _, _, htotal, hreplies⟩ :=
    browsing_complete songStore_ordered (by decide) hindex (by decide) htwo
  have hlimit : utf8 "LIMIT" ∉ utf8 "idx:song" :: [utf8 "*"] := by decide +kernel
  have hsearch := search_all hindex hlimit
  rw [matching_songs] at hsearch
  obtain rfl : whole = _ := Except.ok.inj ((congrArg Prod.fst hwhole).symm.trans hsearch)
  exact ⟨replies, hbrowsing, hdocuments, hreplies⟩

end Store

end DocumentSchema
