/-!
# Computations that may fail

A chain of computations gives a result exactly if each of them does (`bind_eq_ok`). `Succeeds` says
so where the result does not matter.
-/

set_option autoImplicit false

namespace DocumentSchema.Outcome

universe u v

variable {ε : Type u} {α β : Type v}

/-- Two steps give a result exactly if the first has one from which the second gets there. -/
theorem bind_eq_ok {x : Except ε α} {f : α → Except ε β} {b : β} :
    (x >>= f) = .ok b ↔ ∃ a, x = .ok a ∧ f a = .ok b := by
  cases x with
  | error e => exact ⟨fun h => absurd h (by rintro ⟨⟩), fun ⟨_, h, _⟩ => absurd h (by rintro ⟨⟩)⟩
  | ok a => exact ⟨fun h => ⟨a, rfl, h⟩, fun ⟨_, h, hf⟩ => Except.ok.inj h ▸ hf⟩

/-- A step that only returns a value has no other result. -/
theorem pure_eq_ok {a b : α} : (pure a : Except ε α) = .ok b ↔ a = b :=
  ⟨Except.ok.inj, congrArg _⟩

/-- A function of a result is had exactly if there is a result that it takes there. -/
theorem map_eq_ok {x : Except ε α} {f : α → β} {b : β} :
    x.map f = .ok b ↔ ∃ a, x = .ok a ∧ f a = b := by
  have hbind : x.map f = (x >>= fun a => pure (f a)) := by cases x <;> rfl
  rw [hbind, bind_eq_ok]
  simp only [pure_eq_ok]

/-- After a step with a result comes the next step. -/
theorem ok_bind (a : α) (f : α → Except ε β) : ((.ok a : Except ε α) >>= f) = f a := rfl

/-- The computation gives a result. -/
def Succeeds (x : Except ε α) : Prop := ∃ a, x = .ok a

/-- A result is a success. -/
theorem succeeds_ok (a : α) : Succeeds (.ok a : Except ε α) := ⟨a, rfl⟩

/-- An error is no success. -/
theorem not_succeeds_error (e : ε) : ¬Succeeds (.error e : Except ε α) := by
  intro h
  obtain ⟨a, ha⟩ := h
  cases ha

/-- A function of the result does not change whether there is one. -/
theorem succeeds_map {x : Except ε α} (f : α → β) : Succeeds (x.map f) ↔ Succeeds x := by
  constructor
  · rintro ⟨b, hb⟩
    obtain ⟨a, ha, _⟩ := map_eq_ok.1 hb
    exact ⟨a, ha⟩
  · rintro ⟨a, ha⟩
    exact ⟨f a, map_eq_ok.2 ⟨a, ha, rfl⟩⟩

/-- What is done with a result cannot fail. -/
theorem succeeds_bind_pure {x : Except ε α} (f : α → β) :
    Succeeds (x >>= fun a => pure (f a)) ↔ Succeeds x :=
  succeeds_map f

/-- Two computations one after the other give a result exactly if both do. -/
theorem succeeds_both {γ : Type v} {x : Except ε α} {y : Except ε β} (f : α → β → γ) :
    Succeeds (x >>= fun a => y >>= fun b => pure (f a b)) ↔ Succeeds x ∧ Succeeds y := by
  cases x with
  | error e =>
    exact ⟨fun h => absurd h (not_succeeds_error e), fun h => absurd h.1 (not_succeeds_error e)⟩
  | ok a =>
    rw [ok_bind, succeeds_bind_pure]
    exact ⟨fun h => ⟨succeeds_ok a, h⟩, fun h => h.2⟩

end DocumentSchema.Outcome
