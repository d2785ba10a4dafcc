import PrioritySampling.Binary64.Basic
import PrioritySampling.Clock
import PrioritySampling.Comparator
/-!
# Events

An event carries a payload, and with it a priority and a timestamp.  Events rank by priority,
and those of equal priority by time, the later one higher.  Every bit pattern is a priority.
-/

namespace PrioritySampling

/-- An event that carries a payload. -/
structure Event (π : Type) where
  priority : Binary64
  timestamp : UInt64
  payload : π
  deriving DecidableEq, Repr

namespace Event

variable {π ρ : Type}

/-- The rank of events: priority first, then time. -/
abbrev rank : Comparator (Event π) :=
  compareLex (compareOn fun event => event.priority.priorityKey) (compareOn timestamp)

/-- An event at the reading of a clock. -/
def stamped (priority : Binary64) (payload : π) (clock : Clock) : Event π :=
  ⟨priority, clock.now, payload⟩

/-- The event with its payload changed. -/
def map (f : π → ρ) (event : Event π) : Event ρ :=
  ⟨event.priority, event.timestamp, f event.payload⟩

/-- Equality of events, where priorities are compared as numbers. -/
def same [BEq π] (a b : Event π) : Bool :=
  a.priority.sameNumber b.priority && a.timestamp == b.timestamp && a.payload == b.payload

end Event

end PrioritySampling
