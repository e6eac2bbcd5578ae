import DocumentSchema.Coordinates
import DocumentSchema.Proofs.Floating.Text

/-!
# Places read back from their text

A place that an index can hold has finite coordinates, and is read back from its text as it is.
-/

set_option autoImplicit false

namespace DocumentSchema

/-- What lies between finite numbers is finite. -/
theorem Floating.exists_of_le {f : Format} {low high x : Floating f}
    (hlowFinite : low.isFinite = true) (hhighFinite : high.isFinite = true)
    (hlow : low.le x = true) (hhigh : x.le high = true) : ∃ y, x = .finite y := by
  obtain ⟨a, rfl⟩ := exists_of_isFinite hlowFinite
  obtain ⟨b, rfl⟩ := exists_of_isFinite hhighFinite
  cases x with
  | finite y => exact ⟨y, rfl⟩
  | infinite negative => cases negative <;> simp [Floating.le] at hlow hhigh
  | nan negative => simp [Floating.le] at hlow

namespace Coordinates

/-- The comma between the numbers is no character of a number. -/
theorem takeWhile_comma {cs : List Char} (h : ∀ c ∈ cs, Decimal.isNumberChar c = true)
    (rest : List Char) :
    (cs ++ ',' :: rest).takeWhile (· ≠ ',') = cs ∧
      (cs ++ ',' :: rest).dropWhile (· ≠ ',') = ',' :: rest := by
  induction cs with
  | nil => simp
  | cons c cs ih =>
    have hc : c ≠ ',' := by
      rintro rfl
      exact absurd (h ',' List.mem_cons_self) (by decide)
    obtain ⟨htake, hdrop⟩ := ih fun c hc => h c (List.mem_cons_of_mem _ hc)
    rw [List.cons_append, List.takeWhile_cons, List.dropWhile_cons]
    simp only [hc, ne_eq, not_false_eq_true, decide_true, if_true, htake, hdrop, and_self]

/-- A finite number of degrees is read back from its text. -/
theorem readDegrees?_text (x : Finite64) :
    readDegrees? (x.text .plain).toList = some (.finite x) := by
  have hchars := (Floating.text_chars x).2
  rw [readDegrees?, Decimal.trim_eq_self fun c hc =>
    Decimal.not_isBlank_of_isNumberChar (hchars c hc), Floating.readChars?_text]
  rfl

/-- A place with finite coordinates is read back from its text. -/
theorem read?_text (x y : Finite64) :
    read? (text ⟨.finite x, .finite y⟩) = some ⟨.finite x, .finite y⟩ := by
  have htext : (text ⟨.finite x, .finite y⟩).toList =
      (x.text .plain).toList ++ ',' :: (y.text .plain).toList := by
    simp [text, Floating.text]
  obtain ⟨htake, hdrop⟩ := takeWhile_comma (Floating.text_chars x).2 (y.text .plain).toList
  unfold read?
  rw [htext, hdrop, htake]
  dsimp only
  rw [readDegrees?_text, readDegrees?_text]
  rfl

/-- The coordinates of a place that an index can hold are finite. -/
theorem exists_finite {p : Coordinates} (h : p.isValid = true) :
    ∃ x y : Finite64, p = ⟨.finite x, .finite y⟩ := by
  simp only [isValid, Bool.and_eq_true] at h
  obtain ⟨⟨⟨hminLong, hmaxLong⟩, hminLat⟩, hmaxLat⟩ := h
  have hlongitude : minLongitude.isFinite = true ∧ maxLongitude.isFinite = true := ⟨rfl, rfl⟩
  have hlatitude : minLatitude.isFinite = true ∧ maxLatitude.isFinite = true := ⟨rfl, rfl⟩
  obtain ⟨x, hx⟩ := Floating.exists_of_le hlongitude.1 hlongitude.2 hminLong hmaxLong
  obtain ⟨y, hy⟩ := Floating.exists_of_le hlatitude.1 hlatitude.2 hminLat hmaxLat
  exact ⟨x, y, by rw [← hx, ← hy]⟩

/-- A place that an index can hold is read back from its text. -/
theorem read?_text_of_isValid {p : Coordinates} (h : p.isValid = true) : read? p.text = some p := by
  obtain ⟨x, y, rfl⟩ := exists_finite h
  exact read?_text x y

end Coordinates

end DocumentSchema
