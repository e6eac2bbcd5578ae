import DocumentSchema.Proofs.Floating.Bytes
import DocumentSchema.Proofs.Store.Coverage

/-!
# Arguments read back from their frames

The fingerprint of an index is the digest of its arguments one after the other, each with its length
in front. A length tells where its argument ends, whatever follows it, so the arguments are read back
from these bytes (`IndexDefinition.argumentsOf?_frames`), also if they are empty or hold what looks
like a length. Two indexes with other arguments therefore have other bytes, and one fingerprint only
if the digest takes two messages for one (`IndexDefinition.frames_determine`).
-/

set_option autoImplicit false

namespace DocumentSchema.IndexDefinition

/-! ## Reading frames -/

/-- Reads a length of eight bytes and a text of this length. -/
def frameOf? (bytes : Bytes) : Option (String × Bytes) :=
  let length := ofLittleEndian (bytes.take 8)
  let rest := bytes.drop 8
  if bytes.length < 8 + length then none
  else (Store.textOf? (rest.take length)).map fun text => (text, rest.drop length)

/-- Reading a frame leaves fewer bytes. -/
theorem length_lt_of_frameOf? {bytes rest : Bytes} {text : String}
    (h : frameOf? bytes = some (text, rest)) : rest.length < bytes.length := by
  simp only [frameOf?] at h
  split at h
  · cases h
  · rename_i hlength
    obtain ⟨found, _, heq⟩ := Option.map_eq_some_iff.1 h
    rw [← (Prod.mk.inj heq).2, List.length_drop, List.length_drop]
    omega

/-- Reads frames as long as there are bytes. -/
def argumentsOf? (bytes : Bytes) : Option (List String) :=
  if bytes.isEmpty then some []
  else
    match h : frameOf? bytes with
    | none => none
    | some (argument, rest) =>
      have _hshorter := length_lt_of_frameOf? h
      (argumentsOf? rest).map fun others => argument :: others
termination_by bytes.length

/-- Eight bytes hold the length of the text. -/
def Framable (argument : String) : Prop := (utf8 argument).length < 2 ^ 64

instance (argument : String) : Decidable (Framable argument) := by
  unfold Framable
  infer_instance

/-- A frame is eight bytes longer than its text. -/
theorem length_framed (argument : String) :
    (framed argument).length = 8 + (utf8 argument).length := by
  rw [framed, List.length_append, length_littleEndian]

/-- An argument is read back from its frame, whatever follows it. -/
theorem frameOf?_framed {argument : String} (h : Framable argument) (rest : Bytes) :
    frameOf? (framed argument ++ rest) = some (argument, rest) := by
  have hprefix : (littleEndian 8 (utf8 argument).length).length = 8 := length_littleEndian _ _
  have hframe : framed argument ++ rest =
      littleEndian 8 (utf8 argument).length ++ (utf8 argument ++ rest) := List.append_assoc _ _ _
  have hlength : ofLittleEndian ((framed argument ++ rest).take 8) = (utf8 argument).length := by
    rw [hframe, List.take_left' hprefix, ofLittleEndian_littleEndian h]
  have hbody : (framed argument ++ rest).drop 8 = utf8 argument ++ rest := by
    rw [hframe, List.drop_left' hprefix]
  have henough : ¬(framed argument ++ rest).length < 8 + (utf8 argument).length := by
    rw [List.length_append, length_framed]
    omega
  rw [frameOf?]
  simp only [hlength, hbody]
  rw [if_neg henough, List.take_left, List.drop_left, Store.textOf?_utf8]
  rfl

/-- No bytes are no arguments. -/
theorem argumentsOf?_nil : argumentsOf? [] = some [] := by
  rw [argumentsOf?]
  rfl

/-- Behind a frame the other arguments are read. -/
theorem argumentsOf?_framed {argument : String} (h : Framable argument) (rest : Bytes) :
    argumentsOf? (framed argument ++ rest) =
      (argumentsOf? rest).map fun others => argument :: others := by
  have hsome : (framed argument ++ rest).isEmpty = false := by
    rw [List.isEmpty_eq_false_iff, ← List.length_pos_iff, List.length_append, length_framed]
    omega
  rw [argumentsOf?, hsome, if_neg Bool.false_ne_true]
  split
  · rename_i hread
    rw [frameOf?_framed h] at hread
    cases hread
  · rename_i found others hread
    rw [frameOf?_framed h] at hread
    obtain ⟨rfl, rfl⟩ := Prod.mk.inj (Option.some.inj hread)
    rfl

/-- Any number of arguments are read back from their frames. -/
theorem argumentsOf?_frames {arguments : List String} (h : ∀ a ∈ arguments, Framable a) :
    argumentsOf? (frames arguments) = some arguments := by
  induction arguments with
  | nil => exact argumentsOf?_nil
  | cons first others ih =>
    obtain ⟨hfirst, hothers⟩ := List.forall_mem_cons.1 h
    show argumentsOf? (framed first ++ frames others) = _
    rw [argumentsOf?_framed hfirst, ih hothers]
    rfl

/-! ## Fingerprints -/

/-- Two definitions have one fingerprint exactly if their frames have one digest. -/
theorem fingerprint_eq_iff {d e : IndexDefinition} :
    d.fingerprint = e.fingerprint ↔
      Sha256.digest (frames d.arguments) = Sha256.digest (frames e.arguments) :=
  ⟨Text.hexText_inj, congrArg Text.hexText⟩

/-- The bytes of which the fingerprint of an index is the digest give its arguments back, and indexes
with other arguments have other bytes. Two indexes have one fingerprint if their arguments are the
same, and otherwise only if the digest of two messages is the same. -/
theorem frames_determine {d e : IndexDefinition} (hd : ∀ a ∈ d.arguments, Framable a)
    (he : ∀ a ∈ e.arguments, Framable a) :
    argumentsOf? (frames d.arguments) = some d.arguments ∧
    (d.arguments ≠ e.arguments → frames d.arguments ≠ frames e.arguments) ∧
    (d.fingerprint = e.fingerprint ↔
      d.arguments = e.arguments ∨ frames d.arguments ≠ frames e.arguments ∧
        Sha256.digest (frames d.arguments) = Sha256.digest (frames e.arguments)) := by
  have hread := argumentsOf?_frames hd
  have hapart : d.arguments ≠ e.arguments → frames d.arguments ≠ frames e.arguments := by
    intro hne hsame
    have hother := argumentsOf?_frames he
    rw [← hsame, hread] at hother
    exact hne (Option.some.inj hother)
  refine ⟨hread, hapart, ?_⟩
  rw [fingerprint_eq_iff]
  constructor
  · intro hdigest
    by_cases hsame : d.arguments = e.arguments
    · exact Or.inl hsame
    · exact Or.inr ⟨hapart hsame, hdigest⟩
  · rintro (hsame | ⟨_, hdigest⟩)
    · rw [hsame]
    · exact hdigest

/-! ### Two indexes with one text -/

/-- An index of tunes by their title; the empty arguments add nothing to its text. -/
def tuneIndex : IndexDefinition where
  name := "tunes"
  storage := .hash
  keyStart := ""
  fields := [⟨"title", "title", ["TEXT"]⟩, ⟨"", "", []⟩]

/-- The same text cut in other places. -/
def tuneIndexRecut : IndexDefinition :=
  { tuneIndex with fields := [⟨"tit", "tit", ["le", "TEXT"]⟩] }

/-- Two indexes whose arguments are cut differently have different frames. -/
theorem frames_determine_tunes :
    String.join tuneIndex.arguments = String.join tuneIndexRecut.arguments ∧
      (∀ a ∈ tuneIndex.arguments, Framable a) ∧ (∀ a ∈ tuneIndexRecut.arguments, Framable a) ∧
      tuneIndex.arguments ≠ tuneIndexRecut.arguments ∧
      frames tuneIndex.arguments ≠ frames tuneIndexRecut.arguments := by
  have htune : ∀ a ∈ tuneIndex.arguments, Framable a := by decide
  have hrecut : ∀ a ∈ tuneIndexRecut.arguments, Framable a := by decide
  have hne : tuneIndex.arguments ≠ tuneIndexRecut.arguments := by decide
  exact ⟨by decide, htune, hrecut, hne, (frames_determine htune hrecut).2.1 hne⟩

end DocumentSchema.IndexDefinition
