import PrioritySampling.Pool.Basic
/-!
# Histories of a pool

A change of a pool, as a value.  A command is a whole call: what a shared reservoir records into
its collector is part of the call that it records.  Any interleaving of whole calls by any number
of clients is a list of commands, so what holds of all lists holds of all those interleavings.
-/

namespace PrioritySampling

namespace Pool

/-- One change of a pool. -/
inductive Command (π : Type) where
  /-- Put a local reservoir under a name. -/
  | placeLocal (name : String) (reservoir : Reservoir π)
  /-- Put a shared reservoir under a name. -/
  | placeShared (name : String) (reservoir : Reservoir π)
  /-- Offer an event. -/
  | add (name : String) (event : Event π)
  /-- Merge the second reservoir into the first. -/
  | merge (name donor : String)
  /-- Take the extreme event on a side. -/
  | pop (name : String) (side : Side)
  /-- End the cycle. -/
  | harvest (name : String)
  /-- Install a hook. -/
  | setHook (name : String) (hook : Hook)
  /-- From now on, requests for storage meet this memory. -/
  | setMemory (name : String) (memory : Memory)
  /-- Share a local reservoir. -/
  | share (name : String) (handle : Option String)
  /-- Make a shared reservoir local. -/
  | unshare (name : String)
  /-- Drop a reservoir. -/
  | drop (name : String)
  /-- Give a new collector a handle. -/
  | openCollector (handle : String)
  /-- Give the collector with the first handle another one. -/
  | copyHandle (handle copy : String)
  /-- Give the collector of a shared reservoir a handle. -/
  | handleOf (handle name : String)
  /-- Add a finished cycle to a collector. -/
  | recordHarvest (handle : String) (stats : Stats)
  /-- Add a failure for lack of storage to a collector. -/
  | recordFailure (handle : String)
  /-- Start a collector again from zero. -/
  | reset (handle : String)

/-- Gives a collector a handle, if there is a collector. -/
def putHandle (handle : String) (collector : Option Nat) (pool : Pool π) : Effect π :=
  match collector with
  | some collector => .quiet .done { pool with handles := pool.handles.put handle collector }
  | none => .quiet .missing pool

variable {π : Type}

/-- Carries out one command. -/
def apply (pool : Pool π) : Command π → Effect π
  | .placeLocal name reservoir => pool.placeLocal name reservoir
  | .placeShared name reservoir => pool.placeShared name reservoir
  | .add name event => pool.add name event
  | .merge name donor => pool.merge name donor
  | .pop name side => pool.pop name side
  | .harvest name => pool.harvest name
  | .setHook name hook =>
    pool.adjust name fun member => { member with reservoir := member.reservoir.setHook hook }
  | .setMemory name memory => pool.adjust name fun member => { member with memory := memory }
  | .share name handle => pool.share name handle
  | .unshare name => pool.unshare name
  | .drop name => pool.drop name
  | .openCollector handle => .quiet .done (pool.openCollector handle)
  | .copyHandle handle copy => pool.putHandle copy (pool.handles.find? handle)
  | .handleOf handle name =>
    pool.putHandle handle ((pool.members.find? name).bind Member.collector)
  | .recordHarvest handle stats => pool.recordAt handle (Totals.recordHarvest stats)
  | .recordFailure handle => pool.recordAt handle Totals.recordAllocationFailure
  | .reset handle => pool.recordAt handle fun _ => .zero

/-- Carries out a history, from the first command to the last. -/
def run (pool : Pool π) :
    List (Command π) → Transition (Pool π) (Event π) (List (Answer π))
  | [] => .quiet [] pool
  | command :: later =>
    let step := pool.apply command
    let rest := step.state.run later
    ⟨step.answer :: rest.answer, rest.state, step.discards ++ rest.discards⟩

end Pool

end PrioritySampling
