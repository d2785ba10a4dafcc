import PrioritySampling.Config
import PrioritySampling.Event
import PrioritySampling.MinMaxHeap.Basic
import PrioritySampling.Stats
/-!
# Reservoirs

A reservoir keeps the highest ranking of the events it is offered, up to its limit, and counts
what became of all the others.  Its counts belong to a cycle, which a harvest ends: all events
are handed over, the highest first, and the counts start again from zero.

Reservoirs can be merged.  The events that one holds are offered to the other one by one, and
its counts are added to the other's, so that nothing it dropped is forgotten.
-/

namespace PrioritySampling

/-- A reservoir of events with payloads. -/
structure Reservoir (π : Type) where
  name : String
  heap : MinMaxHeap (Event π) Event.rank
  /-- Events offered in this cycle. -/
  seen : UInt64
  /-- Events turned away in this cycle. -/
  rejected : UInt64
  /-- Events that had to make room for others in this cycle. -/
  evicted : UInt64

/-- The yield of a cycle. -/
structure Harvest (π : Type) where
  /-- The events held at the end, the highest ranking first. -/
  events : List (Event π)
  stats : Stats

/-- The cycle yielded no event. -/
def Harvest.isEmpty {π : Type} (harvest : Harvest π) : Bool :=
  harvest.events.isEmpty

namespace Reservoir

variable {π : Type}

/-! ## Making a reservoir -/

/-- A reservoir at the beginning of its first cycle. -/
def fresh (name : String) (heap : MinMaxHeap (Event π) Event.rank) : Reservoir π :=
  ⟨name, heap, 0, 0, 0⟩

/-- An empty reservoir without limit. -/
def unlimited : Reservoir π :=
  fresh Config.usualName (.empty Event.rank)

/-- An empty reservoir with the given limit and name. -/
def withLimit (memory : Memory) (limit : Limit) (name : String) : Except Error (Reservoir π) :=
  return fresh name (← MinMaxHeap.withLimit Event.rank memory limit)

/-- An empty reservoir with the limit that a count describes. -/
def ofCapacity (memory : Memory) (capacity : Nat) : Except Error (Reservoir π) := do
  withLimit memory (← Limit.ofNat capacity) Config.usualName

/-- An empty reservoir with the given parameters. -/
def ofConfig (memory : Memory) (config : Config) : Except Error (Reservoir π) := do
  withLimit memory (← config.limit) config.name

/-! ## Reading -/

/-- The events in storage order. -/
def events (reservoir : Reservoir π) : List (Event π) :=
  reservoir.heap.toList

/-- The number of events held. -/
def saved (reservoir : Reservoir π) : UInt64 :=
  UInt64.ofNat reservoir.heap.size

/-- The number of events offered and not held, which is never below zero. -/
def dropped (reservoir : Reservoir π) : UInt64 :=
  if reservoir.saved ≤ reservoir.seen then reservoir.seen - reservoir.saved else 0

/-- The greatest number of events to hold, 0 for no limit. -/
def capacity (reservoir : Reservoir π) : Nat :=
  reservoir.heap.bound

/-- The account of the cycle so far. -/
def stats (reservoir : Reservoir π) : Stats where
  seen := reservoir.seen
  saved := reservoir.saved
  dropped := reservoir.dropped
  rejected := reservoir.rejected
  evicted := reservoir.evicted
  capacity := UInt64.ofNat reservoir.capacity

/-- The lowest ranking event, which is the next to be evicted. -/
def lowest? (reservoir : Reservoir π) : Option (Event π) :=
  reservoir.heap.min?

/-- The highest ranking event. -/
def highest? (reservoir : Reservoir π) : Option (Event π) :=
  reservoir.heap.max?

/-- The events from the highest to the lowest.  Those of equal rank stay in storage order. -/
def sorted (reservoir : Reservoir π) : List (Event π) :=
  reservoir.events.mergeSort fun a b => (Event.rank b a).isLE

/-- What a receiver holds after the events have been copied to it, in storage order. -/
def exportTo (sink : List (Event π)) (reservoir : Reservoir π) : List (Event π) :=
  sink ++ reservoir.events

/-! ## Changing -/

/-- Sends discarded events to a hook from now on. -/
def setHook (hook : Hook) (reservoir : Reservoir π) : Reservoir π :=
  { reservoir with heap := reservoir.heap.setHook hook }

/-- Takes the extreme event on a side. -/
def pop (side : Side) (reservoir : Reservoir π) : Option (Event π × Reservoir π) :=
  (reservoir.heap.pop side).map fun (event, heap) => (event, { reservoir with heap := heap })

/-- Counts what became of an event. -/
def tally (outcome : Insertion) (reservoir : Reservoir π) : Reservoir π :=
  match outcome with
  | .inserted => reservoir
  | .replaced => { reservoir with evicted := reservoir.evicted + 1 }
  | .rejected => { reservoir with rejected := reservoir.rejected + 1 }

/-- Offers an event to the heap and counts what becomes of it, unless there is no storage. -/
def offer (memory : Memory) (event : Event π) (reservoir : Reservoir π) :
    Transition (Reservoir π) (Event π) (Except Error Insertion) :=
  let step := reservoir.heap.insert memory event
  let after := { reservoir with heap := step.state }
  match step.answer with
  | .ok outcome => ⟨.ok outcome, after.tally outcome, step.discards⟩
  | .error failure => ⟨.error failure, after, step.discards⟩

/-- Offers an event.  The answer tells whether the number of events held did not grow.  An
event that is lost for lack of storage counts as seen. -/
def add (memory : Memory) (event : Event π) (reservoir : Reservoir π) :
    Transition (Reservoir π) (Event π) (Except Error Bool) :=
  let step := { reservoir with seen := reservoir.seen + 1 }.offer memory event
  ⟨step.answer.map Insertion.displaced, step.state, step.discards⟩

/-- Offers events one by one until storage fails.  Then the event that failed and all that
would have come after it are discarded. -/
def absorb (memory : Memory) :
    List (Event π) → Reservoir π → Transition (Reservoir π) (Event π) (Except Error Unit)
  | [], reservoir => .quiet (.ok ()) reservoir
  | event :: later, reservoir =>
    let step := reservoir.offer memory event
    match step.answer with
    | .ok _ => (absorb memory later step.state).after step.discards
    | .error failure =>
      ⟨.error failure, step.state, step.discards ++ step.state.heap.discard later⟩

/-- Takes over the events and counts of another reservoir, which is used up. -/
def merge (memory : Memory) (reservoir other : Reservoir π) :
    Transition (Reservoir π) (Event π) (Except Error Unit) :=
  absorb memory other.events
    { reservoir with
      seen := reservoir.seen + other.seen
      rejected := reservoir.rejected + other.rejected
      evicted := reservoir.evicted + other.evicted }

/-- Ends the cycle: hands over all events with the account of the cycle, and starts anew. -/
def harvest (reservoir : Reservoir π) : Harvest π × Reservoir π :=
  let (events, heap) := reservoir.heap.drain .high
  (⟨events, reservoir.stats⟩, fresh reservoir.name heap)

/-- The end of a reservoir: what it still holds is discarded in storage order. -/
def drop (reservoir : Reservoir π) : List (Discard (Event π)) :=
  reservoir.heap.drop

end Reservoir

end PrioritySampling
