/-!
# Instants

An instant is a count of whole seconds since the start of 1970, rounded down, and the nanoseconds
after it. A leap second is the second after a `:59`, counted as more than `nanosPerSecond`
nanoseconds of that one. Instants lie in the years -262143 to 262142.
-/

set_option autoImplicit false

namespace DocumentSchema

namespace Instant

def minSeconds : Int := -8334601228800

def maxSeconds : Int := 8210266876799

def nanosPerSecond : Nat := 1000000000

def nanosPerMilli : Nat := 1000000

def nanosPerMicro : Nat := 1000

/-- Seconds in range, nanoseconds below one second, or below two after a `:59`. -/
def Valid (seconds : Int) (nanos : Nat) : Prop :=
  minSeconds ≤ seconds ∧ seconds ≤ maxSeconds ∧ nanos < 2 * nanosPerSecond ∧
    (nanosPerSecond ≤ nanos → seconds % 60 = 59)

instance (seconds : Int) (nanos : Nat) : Decidable (Valid seconds nanos) := by
  unfold Valid
  infer_instance

end Instant

/-- A point in time. -/
structure Instant where
  seconds : Int
  nanos : Nat
  valid : Instant.Valid seconds nanos
deriving DecidableEq

namespace Instant

def ofParts? (seconds : Int) (nanos : Nat) : Option Instant :=
  if h : Valid seconds nanos then some ⟨seconds, nanos, h⟩ else none

/-- The instant a number of milliseconds after the start of 1970, if it is in range. -/
def ofMillis? (millis : Int) : Option Instant :=
  ofParts? (millis / 1000) ((millis % 1000).toNat * nanosPerMilli)

/-- The milliseconds since the start of 1970, rounded down; a leap second counts past its minute. -/
def millis (t : Instant) : Int := t.seconds * 1000 + (t.nanos / nanosPerMilli : Nat)

/-- The milliseconds of an instant are at least `-2 ^ 63`. -/
theorem millis_lower (t : Instant) : -9223372036854775808 ≤ t.millis := by
  obtain ⟨hmin, _, _, _⟩ := t.valid
  simp only [minSeconds] at hmin
  simp only [millis, nanosPerMilli]
  omega

/-- The milliseconds of an instant are below `2 ^ 64`. -/
theorem millis_upper (t : Instant) : t.millis < 18446744073709551616 := by
  obtain ⟨_, hmax, hnanos, _⟩ := t.valid
  simp only [maxSeconds] at hmax
  simp only [nanosPerSecond] at hnanos
  simp only [millis, nanosPerMilli]
  omega

end Instant

end DocumentSchema
