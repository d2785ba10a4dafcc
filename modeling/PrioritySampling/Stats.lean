import PrioritySampling.Binary64.Arithmetic
/-!
# Statistics of a cycle

How many events a reservoir was offered, how many it holds and how it lost the others.  Counts
have 64 bits.
-/

namespace PrioritySampling

/-- The account of one cycle. -/
structure Stats where
  /-- Events offered. -/
  seen : UInt64
  /-- Events held. -/
  saved : UInt64
  /-- Events offered and not held. -/
  dropped : UInt64
  /-- Events turned away on arrival. -/
  rejected : UInt64
  /-- Events that had to make room for others. -/
  evicted : UInt64
  /-- The greatest number of events to hold, 0 for no limit. -/
  capacity : UInt64
  deriving DecidableEq, Repr

/-- A named count for a report. -/
structure Metric where
  name : String
  value : UInt64
  deriving DecidableEq, Repr

namespace Stats

/-- The share of the offered events that is not held. -/
def dropRate (stats : Stats) : Binary64 :=
  if stats.seen = 0 then .zero else .ratio stats.dropped stats.seen

/-- The share of the capacity that is in use, if there is a limit. -/
def fillRatio (stats : Stats) : Option Binary64 :=
  if stats.capacity = 0 then none else some (.ratio stats.saved stats.capacity)

/-- There is a limit, and it has been reached. -/
def isFull (stats : Stats) : Bool :=
  0 < stats.capacity && stats.capacity ≤ stats.saved

/-- The counts that are reported of a reservoir with the given name. -/
def supportability (name : String) (stats : Stats) : List Metric :=
  let metric (suffix : String) (value : UInt64) : Metric :=
    ⟨"Supportability/" ++ name ++ "/" ++ suffix, value⟩
  [metric "TotalEventsSeen" stats.seen,
    metric "TotalEventsSent" stats.saved,
    metric "Dropped" stats.dropped]

end Stats

end PrioritySampling
