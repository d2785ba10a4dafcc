import PrioritySampling.Stats
/-!
# Totals over many cycles

A reservoir starts its counts anew with every cycle.  Totals add up what the cycles counted.
They have 64 bits and wrap around.
-/

namespace PrioritySampling

/-- Sums over all cycles recorded so far. -/
structure Totals where
  cycles : UInt64
  seen : UInt64
  saved : UInt64
  dropped : UInt64
  rejected : UInt64
  evicted : UInt64
  /-- Calls that failed for lack of storage. -/
  allocationFailures : UInt64
  deriving DecidableEq, Repr

namespace Totals

/-- Nothing has been recorded. -/
def zero : Totals :=
  ⟨0, 0, 0, 0, 0, 0, 0⟩

/-- Adds a finished cycle. -/
def recordHarvest (stats : Stats) (totals : Totals) : Totals :=
  { totals with
    cycles := totals.cycles + 1
    seen := totals.seen + stats.seen
    saved := totals.saved + stats.saved
    dropped := totals.dropped + stats.dropped
    rejected := totals.rejected + stats.rejected
    evicted := totals.evicted + stats.evicted }

/-- Adds a call that failed for lack of storage. -/
def recordAllocationFailure (totals : Totals) : Totals :=
  { totals with allocationFailures := totals.allocationFailures + 1 }

/-- The share of all offered events that was not harvested. -/
def dropRate (totals : Totals) : Binary64 :=
  if totals.seen = 0 then .zero else .ratio totals.dropped totals.seen

/-- The mean number of offered events in a cycle. -/
def seenPerCycle (totals : Totals) : Binary64 :=
  if totals.cycles = 0 then .zero else .ratio totals.seen totals.cycles

end Totals

end PrioritySampling
