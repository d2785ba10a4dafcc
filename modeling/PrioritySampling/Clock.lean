/-!
# A clock moved by hand

A clock gives events their timestamps.  This one stands still until it is moved, and it shows
64 bits: moved far enough, it starts again from zero.
-/

namespace PrioritySampling

/-- A clock, given by its reading. -/
structure Clock where
  now : UInt64
  deriving DecidableEq, Repr

namespace Clock

/-- A clock that has not been moved. -/
def start : Clock := ⟨0⟩

/-- Moves the clock on. -/
def advance (steps : UInt64) (clock : Clock) : Clock :=
  ⟨clock.now + steps⟩

/-- Reads the clock and moves it on by one. -/
def tick (clock : Clock) : UInt64 × Clock :=
  (clock.now, clock.advance 1)

end Clock

end PrioritySampling
