import PrioritySampling.Export.Records
import PrioritySampling.Reservoir.Basic
/-!
# Envelopes

An envelope holds the events of a cycle with the account of it.  It is written as an array of
two: the statistics, then the events.  Reading either succeeds or fails with an error that
tells nothing about the place.
-/

namespace PrioritySampling

open Json (Payload Value)

/-- The events of a cycle, the highest ranking first, with the account of the cycle. -/
structure Envelope (π : Type) where
  stats : Stats
  events : List (Event π)

/-- Text that does not denote what it should. -/
def Error.malformed : Error :=
  .serialization "malformed text"

namespace Envelope

variable {π : Type}

/-- What a reservoir would yield now, without a harvest. -/
def capture (reservoir : Reservoir π) : Envelope π :=
  ⟨reservoir.stats, reservoir.sorted⟩

/-- The yield of a harvest. -/
def ofHarvest (harvest : Harvest π) : Envelope π :=
  ⟨harvest.stats, harvest.events⟩

variable [Payload π]

def toJson (envelope : Envelope π) : Value :=
  .array [envelope.stats.toJson, .array (envelope.events.map Event.toJson)]

/-- The envelope as text. -/
def toText (envelope : Envelope π) : String :=
  envelope.toJson.render

def ofJson? : Value → Option (Envelope π)
  | .array [stats, events] => do return ⟨← Stats.ofJson? stats, ← events.toList? Event.ofJson?⟩
  | _ => none

/-- The envelope that a text denotes. -/
def ofText (text : String) : Except Error (Envelope π) :=
  match (Json.parse text).bind ofJson? with
  | some envelope => .ok envelope
  | none => .error .malformed

end Envelope

namespace Reservoir

variable {π : Type} [Payload π]

/-- The events as text, in storage order. -/
def toText (reservoir : Reservoir π) : String :=
  (Value.array (reservoir.events.map Event.toJson)).render

/-- Offers events one by one, up to the first that is lost for lack of storage.  The reservoir
is new and has no hook, so what it discards on the way goes nowhere. -/
def fill (memory : Memory) : List (Event π) → Reservoir π → Except Error (Reservoir π)
  | [], reservoir => .ok reservoir
  | event :: later, reservoir =>
    let step := reservoir.add memory event
    match step.answer with
    | .ok _ => fill memory later step.state
    | .error failure => .error failure

/-- A reservoir with the given capacity that has been offered the events of a text. -/
def ofText (memory : Memory) (text : String) (capacity : Nat) : Except Error (Reservoir π) :=
  match (Json.parse text).bind (Value.toList? Event.ofJson?) with
  | some events => do fill memory events (← Reservoir.ofCapacity memory capacity)
  | none => .error .malformed

end Reservoir

end PrioritySampling
