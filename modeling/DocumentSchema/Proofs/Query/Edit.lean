import DocumentSchema.Query.Edit

/-!
# Changes that leave no trace when they stop

What a change comes to is read off its steps (`Edit.on_bind`). A change may write before it stops,
so that a stopped change has no effect is a property of its own: `AllOrNothing` says that from a
state a change either succeeds, with what then holds, or stops with the state as it was. The rules
follow the steps. Once a step has written there is no rule for a step that may stop; the rule for a
part asks that writing the part back unchanged changes nothing.
-/

set_option autoImplicit false

namespace DocumentSchema.Query.Edit

variable {ε ε' σ τ α β : Type}

/-- Returning a value changes nothing. -/
@[simp] theorem on_pure (a : α) (s : σ) : (pure a : Edit ε σ α).on s = (.ok a, s) := rfl

/-- An error changes nothing. -/
@[simp] theorem on_throw (e : ε) (s : σ) : (throw e : Edit ε σ α).on s = (.error e, s) := rfl

/-- Setting the state makes it that state. -/
@[simp] theorem on_set (t s : σ) : (set t : Edit ε σ PUnit).on s = (.ok (), t) := rfl

/-- Modifying the state makes it the function of what it was. -/
@[simp] theorem on_modify (f : σ → σ) (s : σ) :
    (modify f : Edit ε σ PUnit).on s = (.ok (), f s) := rfl

/-- A check has its result and changes nothing. -/
@[simp] theorem on_check (result : Except ε α) (s : σ) :
    (check result : Edit ε σ α).on s = (result, s) := by
  cases result <;> rfl

/-- An edit of what it reads is the one for the state it is in. -/
@[simp] theorem on_get_bind (f : σ → Edit ε σ β) (s : σ) :
    (get >>= f : Edit ε σ β).on s = (f s).on s := rfl

/-- A fault stops the steps after it, and keeps what the steps before it wrote. -/
theorem on_bind (edit : Edit ε σ α) (f : α → Edit ε σ β) (s : σ) :
    (edit >>= f).on s =
      match edit.on s with
      | (.ok a, t) => (f a).on t
      | (.error e, t) => (.error e, t) := by
  show Edit.on (ExceptT.bind edit f) s = _
  simp only [on, ExceptT.run, ExceptT.bind, ExceptT.mk]
  show StateT.run (StateT.bind edit (ExceptT.bindCont f)) s = _
  simp only [StateT.run, StateT.bind]
  rcases edit s with ⟨outcome, t⟩
  cases outcome <;> rfl

/-- After a check comes the next edit, unless the check fails. -/
theorem on_check_bind (result : Except ε α) (f : α → Edit ε σ β) (s : σ) :
    (check result >>= f).on s =
      match result with
      | .ok a => (f a).on s
      | .error e => (.error e, s) := by
  rw [on_bind, on_check]
  cases result <;> rfl

/-- Replacing the state is done or refused, and refused it changes nothing. -/
theorem on_replace (next : σ → Except ε σ) (s : σ) :
    (replace next).on s =
      match next s with
      | .ok t => (.ok (), t)
      | .error e => (.error e, s) := by
  unfold replace
  rw [on_get_bind, on_check_bind]
  cases next s with
  | ok t => simp only [on_set]
  | error e => rfl

/-- An edit of a part has its result and puts the part back. -/
theorem on_part (edit : Edit ε σ α) (fault : ε → ε') (s : σ) (put : σ → τ → τ) (whole : τ) :
    (edit.part fault s put).on whole =
      (((edit.on s).1.mapError fault), put (edit.on s).2 whole) := by
  unfold part
  rw [on_bind, on_modify]
  simp only [on_check]

/-- From `s` the change either succeeds with what `post` says, or stops and leaves `s` as it was. -/
def AllOrNothing (edit : Edit ε σ α) (s : σ) (post : α → σ → Prop) : Prop :=
  match edit.on s with
  | (.ok a, t) => post a t
  | (.error _, t) => t = s

namespace AllOrNothing

variable {edit : Edit ε σ α} {s t : σ} {post : α → σ → Prop}

/-- An edit that succeeded did what it does. -/
theorem of_ok {a : α} (h : edit.AllOrNothing s post) (hok : edit.on s = (.ok a, t)) :
    post a t := by
  unfold AllOrNothing at h
  rw [hok] at h
  exact h

/-- An edit that was refused changed nothing. -/
theorem of_error {e : ε} (h : edit.AllOrNothing s post) (herror : edit.on s = (.error e, t)) :
    t = s := by
  unfold AllOrNothing at h
  rw [herror] at h
  exact h

/-- A change that comes to a success. -/
theorem success {a : α} (hok : edit.on s = (.ok a, t)) (h : post a t) :
    edit.AllOrNothing s post := by
  unfold AllOrNothing
  rw [hok]
  exact h

/-- A change that stops with the state as it was. -/
theorem stopped {e : ε} (herror : edit.on s = (.error e, s)) : edit.AllOrNothing s post := by
  unfold AllOrNothing
  rw [herror]

/-- An edit of what it reads is done or refused as a whole if the one it becomes is. -/
theorem get_bind {f : σ → Edit ε σ α} (h : (f s).AllOrNothing s post) :
    (get >>= f : Edit ε σ α).AllOrNothing s post := by
  unfold AllOrNothing
  rw [on_get_bind]
  exact h

/-- A check stops before anything is written, so it may stand in front. -/
theorem check_bind {result : Except ε β} {f : β → Edit ε σ α}
    (h : ∀ b, result = .ok b → (f b).AllOrNothing s post) :
    (check result >>= f).AllOrNothing s post := by
  unfold AllOrNothing
  rw [on_check_bind]
  cases result with
  | ok b => exact h b rfl
  | error e => rfl

/-- One check in front of writing what it gives. -/
theorem check_write {result : Except ε β} {write : β → Edit ε σ PUnit} {next : β → σ}
    (hwrite : ∀ b, (write b).on s = (.ok (), next b)) :
    (check result >>= write).AllOrNothing s fun _ t => ∃ b, result = .ok b ∧ t = next b := by
  apply check_bind
  intro b hresult
  exact success (hwrite b) ⟨b, hresult, rfl⟩

/-- Replacing the state is done or refused as a whole. -/
theorem replace (next : σ → Except ε σ) (s : σ) :
    (Edit.replace next).AllOrNothing s fun _ t => next s = .ok t := by
  unfold AllOrNothing
  rw [on_replace]
  cases next s <;> rfl

/-- A part may stop as long as it is a part of the whole, so that its unchanged form is there. -/
theorem part {fault : ε → ε'} {put : σ → τ → τ} {whole : τ}
    (h : edit.AllOrNothing s post) (hput : put s whole = whole) :
    (edit.part fault s put).AllOrNothing whole fun a next =>
      ∃ t, post a t ∧ next = put t whole := by
  have hpart := on_part edit fault s put whole
  rcases hon : edit.on s with ⟨outcome, t⟩
  rw [hon] at hpart
  cases outcome with
  | ok a => exact success hpart ⟨t, h.of_ok hon, rfl⟩
  | error e =>
    have ht : t = s := h.of_error hon
    rw [ht, hput] at hpart
    exact stopped hpart

/-- What follows from what an edit does and comes to holds after it. -/
theorem consequence {post' : α → σ → Prop} (h : edit.AllOrNothing s post)
    (himp : ∀ a t, edit.on s = (.ok a, t) → post a t → post' a t) :
    edit.AllOrNothing s post' := by
  rcases hon : edit.on s with ⟨outcome, t⟩
  cases outcome with
  | ok a => exact success hon (himp a t hon (h.of_ok hon))
  | error e =>
    have ht : t = s := h.of_error hon
    rw [ht] at hon
    exact stopped hon

/-- A change that leaves no trace comes to what it comes to. -/
theorem self (h : edit.AllOrNothing s post) :
    edit.AllOrNothing s fun a t => edit.on s = (.ok a, t) :=
  h.consequence fun _ _ hon _ => hon

/-- What follows from what an edit does holds after it. -/
theorem weaken {post' : α → σ → Prop} (h : edit.AllOrNothing s post)
    (himp : ∀ a t, post a t → post' a t) : edit.AllOrNothing s post' :=
  h.consequence fun a t _ hpost => himp a t hpost

end AllOrNothing

end DocumentSchema.Query.Edit
