import PrioritySampling.Config
import PrioritySampling.Event
import PrioritySampling.Json.Codec
import PrioritySampling.Stats
/-!
# Records in JSON

The JSON form of events, statistics, configurations and metrics.  An event may lack its payload
if the payload says what the lack stands for; a configuration may lack anything, which then has
its usual value.
-/

namespace PrioritySampling

open Json (Payload Value)

namespace Event

variable {π : Type} [Payload π]

/-- The keys of an event, in order. -/
def keys : List String :=
  ["priority", "timestamp", "payload"]

def toJson (event : Event π) : Value :=
  .record [("priority", .ofBinary64 event.priority), ("timestamp", .ofUInt64 event.timestamp),
    ("payload", Payload.encode event.payload)]

def ofJson? (value : Value) : Option (Event π) := do
  match ← value.fields? keys false with
  | [some priority, some timestamp, payload] =>
    let payload ← match payload with
      | some payload => Payload.decode? payload
      | none => Payload.absent
    return ⟨← priority.toBinary64?, ← timestamp.toUInt64?, payload⟩
  | _ => none

end Event

namespace Stats

/-- The keys of statistics, in order. -/
def keys : List String :=
  ["seen", "saved", "dropped", "rejected", "evicted", "capacity"]

/-- The counts in the order of the keys. -/
def counts (stats : Stats) : List UInt64 :=
  [stats.seen, stats.saved, stats.dropped, stats.rejected, stats.evicted, stats.capacity]

/-- The statistics with the given counts. -/
def ofCounts? : List UInt64 → Option Stats
  | [seen, saved, dropped, rejected, evicted, capacity] =>
    some ⟨seen, saved, dropped, rejected, evicted, capacity⟩
  | _ => none

def toJson (stats : Stats) : Value :=
  .record (keys.zip (stats.counts.map .ofUInt64))

def ofJson? (value : Value) : Option Stats := do
  let fields ← value.fields? keys false
  ofCounts? (← fields.mapM fun field => field.bind Value.toUInt64?)

end Stats

namespace Config

/-- The keys of a configuration, in order. -/
def keys : List String :=
  ["capacity", "name"]

def toJson (config : Config) : Value :=
  .record [("capacity", .ofInt config.capacity), ("name", .ofString config.name)]

/-- A field that may be lacking. -/
def field? {α : Type} (read? : Value → Option α) (usual : α) : Option Value → Option α
  | some value => read? value
  | none => some usual

def ofJson? (value : Value) : Option Config := do
  match ← value.fields? keys true with
  | [capacity, name] =>
    return ⟨← field? Value.toWord? usualCapacity capacity,
      ← field? Value.toString? usualName name⟩
  | _ => none

end Config

namespace Metric

/-- The keys of a metric, in order. -/
def keys : List String :=
  ["name", "value"]

def toJson (metric : Metric) : Value :=
  .record [("name", .ofString metric.name), ("value", .ofUInt64 metric.value)]

def ofJson? (value : Value) : Option Metric := do
  match ← value.fields? keys false with
  | [some name, some value] => return ⟨← name.toString?, ← value.toUInt64?⟩
  | _ => none

end Metric

end PrioritySampling
