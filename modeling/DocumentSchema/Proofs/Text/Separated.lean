import DocumentSchema.Text.Separated

/-!
# Pieces read back from joined text

Cutting undoes joining if no piece holds the separator, whichever character that is. A text put
together around a separator is cut there, whatever stands on either side (`cut_append`).
-/

set_option autoImplicit false

namespace DocumentSchema.Text

/-- A text without the separator is a single piece. -/
theorem cut_of_not_mem {separator : Char} {piece : List Char} (h : separator ∉ piece) :
    cut separator piece = [piece] := by
  induction piece with
  | nil => rfl
  | cons c cs ih =>
    obtain ⟨hc, hcs⟩ := not_or.1 fun hmem => h (List.mem_cons.2 hmem)
    rw [cut, if_neg fun heq => hc heq.symm, ih hcs]

/-- Cutting goes separator by separator, so a text is cut where it was put together. -/
theorem cut_append (separator : Char) (front rest : List Char) :
    cut separator (front ++ separator :: rest) = cut separator front ++ cut separator rest := by
  induction front with
  | nil =>
    show cut separator (separator :: rest) = [] :: cut separator rest
    rw [cut, if_pos rfl]
  | cons c cs ih =>
    by_cases hc : c = separator
    · rw [List.cons_append, cut, if_pos hc, ih, cut, if_pos hc]
      rfl
    · rw [List.cons_append, cut, if_neg hc, ih, cut, if_neg hc]
      cases hcut : cut separator cs with
      | nil => exact absurd hcut (cut_ne_nil separator cs)
      | cons piece pieces => rfl

/-- Cutting undoes joining pieces without the separator. -/
theorem cut_join {separator : Char} {pieces : List (List Char)} (hne : pieces ≠ [])
    (h : ∀ piece ∈ pieces, separator ∉ piece) : cut separator (join separator pieces) = pieces := by
  induction pieces with
  | nil => exact absurd rfl hne
  | cons piece rest ih =>
    obtain ⟨hpiece, hrest⟩ := List.forall_mem_cons.1 h
    cases rest with
    | nil => exact cut_of_not_mem hpiece
    | cons next rest =>
      show cut separator (piece ++ separator :: join separator (next :: rest)) = _
      rw [cut_append, cut_of_not_mem hpiece, ih (List.cons_ne_nil next rest) hrest]
      rfl

/-- Splitting undoes joining texts without the separator. -/
theorem split_joined {separator : Char} {pieces : List String} (hne : pieces ≠ [])
    (h : ∀ piece ∈ pieces, separator ∉ piece.toList) :
    split separator (joined separator pieces) = pieces := by
  rw [split, joined, String.toList_ofList, cut_join, List.map_map]
  · have hid : String.ofList ∘ String.toList = id := funext fun s => String.ofList_toList
    rw [hid, List.map_id]
  · rw [Ne, List.map_eq_nil_iff]
    exact hne
  · intro piece hpiece
    obtain ⟨s, hs, rfl⟩ := List.mem_map.1 hpiece
    exact h s hs

/-- A joined text with a piece that is not empty is not empty. -/
theorem joined_ne_empty {separator : Char} {piece : String} (h : piece.isEmpty = false)
    (rest : List String) : (joined separator (piece :: rest)).isEmpty = false := by
  have hpiece : piece.toList ≠ [] := by
    intro hnil
    rw [String.toList_eq_nil_iff] at hnil
    rw [hnil] at h
    exact absurd h (by decide)
  have hjoin : join separator ((piece :: rest).map String.toList) ≠ [] := by
    cases rest with
    | nil => exact hpiece
    | cons next rest => exact List.append_ne_nil_of_left_ne_nil hpiece _
  rw [joined, ← Bool.not_eq_true, String.isEmpty_iff, ← String.toList_eq_nil_iff,
    String.toList_ofList]
  exact hjoin

end DocumentSchema.Text
