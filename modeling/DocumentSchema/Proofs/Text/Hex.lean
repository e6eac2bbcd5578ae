import DocumentSchema.Text.Hex

/-!
# Bytes told apart by their text

Two hexadecimal digits tell bytes apart, so the text of bytes does too.
-/

set_option autoImplicit false

namespace DocumentSchema.Text

/-- Different half bytes have different hexadecimal digits. -/
theorem hexChar_inj : ∀ d e : Fin 16, hexChar d = hexChar e → d = e := by
  decide

/-- Different bytes have different pairs of hexadecimal digits. -/
theorem hexByte_inj {b c : UInt8} (h : hexByte b = hexByte c) : b = c := by
  obtain ⟨hhigh, hrest⟩ := List.cons.inj h
  obtain ⟨hlow, _⟩ := List.cons.inj hrest
  have hquotient := congrArg Fin.val (hexChar_inj _ _ hhigh)
  have hremainder := congrArg Fin.val (hexChar_inj _ _ hlow)
  dsimp only at hquotient hremainder
  refine UInt8.toNat_inj.1 ?_
  omega

/-- Different sequences of bytes have different hexadecimal texts. -/
theorem hexText_inj {bytes others : List UInt8} (h : hexText bytes = hexText others) :
    bytes = others := by
  have hchars : bytes.flatMap hexByte = others.flatMap hexByte := String.ofList_injective h
  clear h
  induction bytes generalizing others with
  | nil =>
    cases others with
    | nil => rfl
    | cons c others => cases hchars
  | cons b bytes ih =>
    cases others with
    | nil => cases hchars
    | cons c others =>
      rw [List.flatMap_cons, List.flatMap_cons] at hchars
      have hlength : (hexByte b).length = (hexByte c).length := rfl
      obtain ⟨hbyte, hrest⟩ := List.append_inj hchars hlength
      rw [hexByte_inj hbyte, ih hrest]

end DocumentSchema.Text
