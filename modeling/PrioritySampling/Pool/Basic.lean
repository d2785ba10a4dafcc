import PrioritySampling.Directory
import PrioritySampling.Reservoir.Basic
import PrioritySampling.Totals
/-!
# Pools of reservoirs

Producers fill reservoirs of their own, merge them into shared ones, and harvest those.  A pool
holds any number of reservoirs under names, and the collectors that add up what happens to the
shared ones over many cycles.

A reservoir in a pool is local or shared.  A shared one records into a collector each of its
harvests and each call on it that fails for lack of storage.  Several reservoirs may record
into one collector, and several handles may name one collector.
-/

namespace PrioritySampling

/-- A reservoir in a pool. -/
structure Member (π : Type) where
  reservoir : Reservoir π
  /-- The number of the collector that a shared reservoir records into; a local one has none. -/
  collector : Option Nat
  /-- The memory that its requests for storage meet. -/
  memory : Memory

/-- Reservoirs and collectors, each under its names. -/
structure Pool (π : Type) where
  members : Directory (Member π)
  /-- What the collectors have added up, by their numbers. -/
  collectors : List Totals
  /-- The numbers of the collectors that have handles. -/
  handles : Directory Nat

namespace Pool

variable {π : Type}

/-- A pool that holds nothing. -/
def empty : Pool π :=
  ⟨.empty, [], .empty⟩

/-- What a command has to tell. -/
inductive Answer (π : Type) where
  /-- Nothing. -/
  | done
  /-- There is no reservoir or collector of that name. -/
  | missing
  /-- What became of an offered event. -/
  | added (outcome : Except Error Bool)
  /-- Whether a merge went through. -/
  | merged (outcome : Except Error Unit)
  /-- The event that was taken, if there was one. -/
  | taken (event : Option (Event π))
  /-- The yield of a cycle. -/
  | harvested (harvest : Harvest π)

/-- What one command brings about. -/
abbrev Effect (π : Type) := Transition (Pool π) (Event π) (Answer π)

/-! ## Collectors -/

/-- Adds a collector that has recorded nothing.  The answer is its number. -/
def addCollector (pool : Pool π) : Nat × Pool π :=
  (pool.collectors.length, { pool with collectors := pool.collectors ++ [.zero] })

/-- Changes the totals of a collector. -/
def record (collector : Nat) (change : Totals → Totals) (pool : Pool π) : Pool π :=
  { pool with collectors := pool.collectors.modify collector change }

/-- The totals of the collector with a handle. -/
def totals? (pool : Pool π) (handle : String) : Option Totals := do
  pool.collectors[← pool.handles.find? handle]?

/-- Gives a new collector a handle. -/
def openCollector (handle : String) (pool : Pool π) : Pool π :=
  let (collector, pool) := pool.addCollector
  { pool with handles := pool.handles.put handle collector }

/-- Changes the totals of the collector with a handle. -/
def recordAt (handle : String) (change : Totals → Totals) (pool : Pool π) : Effect π :=
  match pool.handles.find? handle with
  | some collector => .quiet .done (pool.record collector change)
  | none => .quiet .missing pool

/-! ## Reservoirs -/

/-- The reservoir of a name. -/
def reservoir? (pool : Pool π) (name : String) : Option (Reservoir π) :=
  (pool.members.find? name).map Member.reservoir

/-- Puts a member under a name.  Any other that was there is dropped. -/
def place (name : String) (member : Member π) (pool : Pool π) : Effect π where
  answer := .done
  state := { pool with members := pool.members.put name member }
  discards :=
    match pool.reservoir? name with
    | some replaced => replaced.drop
    | none => []

/-- Puts a local reservoir under a name. -/
def placeLocal (name : String) (reservoir : Reservoir π) (pool : Pool π) : Effect π :=
  pool.place name ⟨reservoir, none, .ample⟩

/-- Puts a shared reservoir with a collector of its own under a name. -/
def placeShared (name : String) (reservoir : Reservoir π) (pool : Pool π) : Effect π :=
  let (collector, pool) := pool.addCollector
  pool.place name ⟨reservoir, some collector, .ample⟩

/-- Puts a new shared reservoir of some capacity under a name, if it can be made. -/
def placeNewShared (memory : Memory) (name : String) (capacity : Nat) (pool : Pool π) :
    Except Error (Effect π) :=
  (Reservoir.ofCapacity memory capacity).map fun reservoir => pool.placeShared name reservoir

/-- Puts a changed member back under its name. -/
def update (name : String) (member : Member π) (pool : Pool π) : Pool π :=
  { pool with members := pool.members.put name member }

/-- Changes the totals that a member records into, if it is shared. -/
def recordFor (member : Member π) (change : Totals → Totals) (pool : Pool π) : Pool π :=
  match member.collector with
  | some collector => pool.record collector change
  | none => pool

/-- What a call leaves in the totals: one failure if it failed for lack of storage. -/
def failureNote {ρ : Type} : Except Error ρ → Totals → Totals
  | .error failure, totals =>
    if failure.isAllocation then totals.recordAllocationFailure else totals
  | .ok _, totals => totals

/-- Offers an event to the reservoir of a name. -/
def add (name : String) (event : Event π) (pool : Pool π) : Effect π :=
  match pool.members.find? name with
  | none => .quiet .missing pool
  | some member =>
    let step := member.reservoir.add member.memory event
    let pool := pool.update name { member with reservoir := step.state }
    ⟨.added step.answer, pool.recordFor member (failureNote step.answer), step.discards⟩

/-- Merges the reservoir of the name `donor`, which leaves the pool, into that of `name`.  No
reservoir can be merged into itself. -/
def merge (name donor : String) (pool : Pool π) : Effect π :=
  let others := pool.members.erase donor
  match others.find? name, pool.members.find? donor with
  | some member, some other =>
    let step := member.reservoir.merge member.memory other.reservoir
    let pool := { pool with members := others.put name { member with reservoir := step.state } }
    ⟨.merged step.answer, pool.recordFor member (failureNote step.answer), step.discards⟩
  | _, _ => .quiet .missing pool

/-- Takes the extreme event on a side out of the reservoir of a name. -/
def pop (name : String) (side : Side) (pool : Pool π) : Effect π :=
  match pool.members.find? name with
  | none => .quiet .missing pool
  | some member =>
    match member.reservoir.pop side with
    | some (event, rest) =>
      .quiet (.taken (some event)) (pool.update name { member with reservoir := rest })
    | none => .quiet (.taken none) pool

/-- Ends the cycle of the reservoir of a name. -/
def harvest (name : String) (pool : Pool π) : Effect π :=
  match pool.members.find? name with
  | none => .quiet .missing pool
  | some member =>
    let (harvest, rest) := member.reservoir.harvest
    let pool := pool.update name { member with reservoir := rest }
    .quiet (.harvested harvest) (pool.recordFor member (Totals.recordHarvest harvest.stats))

/-- Changes the member of a name in a way that discards nothing. -/
def adjust (name : String) (change : Member π → Member π) (pool : Pool π) : Effect π :=
  match pool.members.find? name with
  | some member => .quiet .done (pool.update name (change member))
  | none => .quiet .missing pool

/-- The collector with a handle, or a new one if none is named. -/
def collectorFor (handle : Option String) (pool : Pool π) : Option (Nat × Pool π) :=
  match handle with
  | none => some pool.addCollector
  | some handle => (pool.handles.find? handle).map (·, pool)

/-- Makes a local reservoir a shared one that records into the collector with a handle, or
into one of its own if none is named. -/
def share (name : String) (handle : Option String) (pool : Pool π) : Effect π :=
  match pool.members.find? name, pool.collectorFor handle with
  | some member, some (collector, pool) =>
    .quiet .done (pool.update name { member with collector := some collector })
  | _, _ => .quiet .missing pool

/-- Makes a shared reservoir a local one. -/
def unshare (name : String) (pool : Pool π) : Effect π :=
  pool.adjust name fun member => { member with collector := none }

/-- Takes the reservoir of a name out of the pool and drops it. -/
def drop (name : String) (pool : Pool π) : Effect π :=
  match pool.members.find? name with
  | some member =>
    ⟨.done, { pool with members := pool.members.erase name }, member.reservoir.drop⟩
  | none => .quiet .missing pool

/-- The end of a pool: its reservoirs are dropped in the order of their names. -/
def close (pool : Pool π) : List (Discard (Event π)) :=
  pool.members.entries.flatMap fun (_, member) => member.reservoir.drop

end Pool

end PrioritySampling
