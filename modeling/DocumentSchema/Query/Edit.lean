/-!
# Changes in place

An operator changes a clause where it stands and may stop with a fault. What it wrote before the
fault stays written, so whether a stopped change leaves a trace is a question about the order of its
steps. A part of something is changed by itself and written back whatever comes of it (`Edit.part`).
-/

set_option autoImplicit false

namespace DocumentSchema.Query

/-- A change in place: it reads and writes, and gives a result or a fault. -/
abbrev Edit (ε σ α : Type) := ExceptT ε (StateM σ) α

namespace Edit

variable {ε ε' σ τ α : Type}

/-- What a change comes to, and what it leaves behind. -/
def on (edit : Edit ε σ α) (s : σ) : Except ε α × σ := edit.run.run s

/-- Goes on with a result, or stops with its fault. -/
def check : Except ε α → Edit ε σ α
  | .ok a => pure a
  | .error e => throw e

/-- Puts the next state in the place of this one, if there is one. -/
def replace (next : σ → Except ε σ) : Edit ε σ Unit := do
  let s ← check (next (← get))
  set s

/-- Changes a part, which is written back also after a fault. -/
def part (edit : Edit ε σ α) (fault : ε → ε') (s : σ) (put : σ → τ → τ) : Edit ε' τ α := do
  let (outcome, next) := edit.on s
  modify (put next)
  check (outcome.mapError fault)

end Edit

end DocumentSchema.Query
