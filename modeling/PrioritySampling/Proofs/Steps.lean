import PrioritySampling.Proofs.Books
import PrioritySampling.Proofs.Listing
/-!
# The steps of a pool

`Step` lists what a command can lead to, with everything that the pool, the answer and the
discards then are.  Whatever holds along every history of a pool can be shown by going through
its cases, without a look at how a command finds its reservoirs.
-/

namespace PrioritySampling

namespace Pool

variable {π : Type}

/-! ## Single commands -/

/-- The handle through which a command changes the totals of a collector by hand, and the
change. -/
def Command.record? : Command π → Option (String × (Totals → Totals))
  | .recordHarvest handle stats => some (handle, Totals.recordHarvest stats)
  | .recordFailure handle => some (handle, Totals.recordAllocationFailure)
  | .reset handle => some (handle, fun _ => .zero)
  | _ => none

/-- What a command can bring about. -/
inductive Step (pool : Pool π) : Command π → Effect π → Prop
  | missing {command : Command π} : Step pool command (.quiet .missing pool)
  | placedLocal {name : String} {reservoir : Reservoir π} :
      Step pool (.placeLocal name reservoir) (pool.place name ⟨reservoir, none, .ample⟩)
  | placedShared {name : String} {reservoir : Reservoir π} :
      Step pool (.placeShared name reservoir)
        (pool.addCollector.2.place name ⟨reservoir, some pool.collectors.length, .ample⟩)
  | added {name : String} {event : Event π} {member : Member π}
      {step : Transition (Reservoir π) (Event π) (Except Error Bool)}
      (hmember : pool.members.find? name = some member)
      (hstep : member.reservoir.add member.memory event = step) :
      Step pool (.add name event)
        ⟨.added step.answer,
          (pool.update name { member with reservoir := step.state }).recordFor member
            (failureNote step.answer), step.discards⟩
  | merged {name donor : String} {member other : Member π}
      {step : Transition (Reservoir π) (Event π) (Except Error Unit)} (hne : name ≠ donor)
      (hmember : pool.members.find? name = some member)
      (hother : pool.members.find? donor = some other)
      (hstep : member.reservoir.merge member.memory other.reservoir = step) :
      Step pool (.merge name donor)
        ⟨.merged step.answer,
          ({ pool with members :=
              (pool.members.erase donor).put name { member with reservoir := step.state } } :
            Pool π).recordFor member (failureNote step.answer), step.discards⟩
  | popped {name : String} {side : Side} {member : Member π} {event : Event π}
      {rest : Reservoir π} (hmember : pool.members.find? name = some member)
      (hpop : member.reservoir.pop side = some (event, rest)) :
      Step pool (.pop name side)
        (.quiet (.taken (some event)) (pool.update name { member with reservoir := rest }))
  | popMissed {name : String} {side : Side} {member : Member π}
      (hmember : pool.members.find? name = some member)
      (hpop : member.reservoir.pop side = none) :
      Step pool (.pop name side) (.quiet (.taken none) pool)
  | harvested {name : String} {member : Member π}
      (hmember : pool.members.find? name = some member) :
      Step pool (.harvest name)
        (.quiet (.harvested member.reservoir.harvest.1)
          ((pool.update name { member with reservoir := member.reservoir.harvest.2 }).recordFor
            member (Totals.recordHarvest member.reservoir.harvest.1.stats)))
  | hooked {name : String} {hook : Hook} {member : Member π}
      (hmember : pool.members.find? name = some member) :
      Step pool (.setHook name hook)
        (.quiet .done
          (pool.update name { member with reservoir := member.reservoir.setHook hook }))
  | supplied {name : String} {memory : Memory} {member : Member π}
      (hmember : pool.members.find? name = some member) :
      Step pool (.setMemory name memory)
        (.quiet .done (pool.update name { member with memory := memory }))
  | shared {name : String} {handle : Option String} {member : Member π} {collector : Nat}
      {pool' : Pool π} (hmember : pool.members.find? name = some member)
      (hcollector : pool.collectorFor handle = some (collector, pool')) :
      Step pool (.share name handle)
        (.quiet .done (pool'.update name { member with collector := some collector }))
  | unshared {name : String} {member : Member π}
      (hmember : pool.members.find? name = some member) :
      Step pool (.unshare name)
        (.quiet .done (pool.update name { member with collector := none }))
  | dropped {name : String} {member : Member π}
      (hmember : pool.members.find? name = some member) :
      Step pool (.drop name)
        ⟨.done, { pool with members := pool.members.erase name }, member.reservoir.drop⟩
  | opened {handle : String} :
      Step pool (.openCollector handle) (.quiet .done (pool.openCollector handle))
  | copied {handle copy : String} {collector : Nat}
      (hhandle : pool.handles.find? handle = some collector) :
      Step pool (.copyHandle handle copy)
        (.quiet .done { pool with handles := pool.handles.put copy collector })
  | handed {handle name : String} {member : Member π} {collector : Nat}
      (hmember : pool.members.find? name = some member)
      (hcollector : member.collector = some collector) :
      Step pool (.handleOf handle name)
        (.quiet .done { pool with handles := pool.handles.put handle collector })
  | recorded {command : Command π} {handle : String} {change : Totals → Totals} {collector : Nat}
      (hcommand : command.record? = some (handle, change))
      (hhandle : pool.handles.find? handle = some collector) :
      Step pool command (.quiet .done (pool.record collector change))

section Apply

variable (pool : Pool π)

theorem step_add (name : String) (event : Event π) :
    Step pool (.add name event) (pool.add name event) := by
  rw [Pool.add]
  cases hmember : pool.members.find? name with
  | none => exact .missing
  | some member => exact .added hmember rfl

theorem step_merge (name donor : String) :
    Step pool (.merge name donor) (pool.merge name donor) := by
  rw [Pool.merge]
  cases hmember : (pool.members.erase donor).find? name with
  | none => exact .missing
  | some member =>
    cases hother : pool.members.find? donor with
    | none => exact .missing
    | some other =>
      have hne : name ≠ donor := by
        rintro rfl
        rw [Directory.find?_erase_self] at hmember
        cases hmember
      rw [Directory.find?_erase_of_ne hne] at hmember
      exact .merged hne hmember hother rfl

theorem step_pop (name : String) (side : Side) :
    Step pool (.pop name side) (pool.pop name side) := by
  rw [Pool.pop]
  cases hmember : pool.members.find? name with
  | none => exact .missing
  | some member =>
    cases hpop : member.reservoir.pop side with
    | none =>
      simp only [hpop]
      exact .popMissed hmember hpop
    | some pair =>
      simp only [hpop]
      exact .popped hmember hpop

theorem step_share (name : String) (handle : Option String) :
    Step pool (.share name handle) (pool.share name handle) := by
  rw [Pool.share]
  cases hmember : pool.members.find? name with
  | none => exact .missing
  | some member =>
    cases hcollector : pool.collectorFor handle with
    | none => exact .missing
    | some pair => exact .shared hmember hcollector

theorem step_recordAt {command : Command π} {handle : String} {change : Totals → Totals}
    (hcommand : command.record? = some (handle, change)) :
    Step pool command (pool.recordAt handle change) := by
  rw [Pool.recordAt]
  cases hhandle : pool.handles.find? handle with
  | none => exact .missing
  | some collector => exact .recorded hcommand hhandle

/-- Every command takes a step. -/
theorem step_apply (command : Command π) : Step pool command (pool.apply command) := by
  cases command with
  | placeLocal name reservoir => exact .placedLocal
  | placeShared name reservoir => exact .placedShared
  | add name event => exact step_add pool name event
  | merge name donor => exact step_merge pool name donor
  | pop name side => exact step_pop pool name side
  | harvest name =>
    rw [Pool.apply, Pool.harvest]
    cases hmember : pool.members.find? name with
    | none => exact .missing
    | some member => exact .harvested hmember
  | setHook name hook =>
    rw [Pool.apply, Pool.adjust]
    cases hmember : pool.members.find? name with
    | none => exact .missing
    | some member => exact .hooked hmember
  | setMemory name memory =>
    rw [Pool.apply, Pool.adjust]
    cases hmember : pool.members.find? name with
    | none => exact .missing
    | some member => exact .supplied hmember
  | share name handle => exact step_share pool name handle
  | unshare name =>
    rw [Pool.apply, Pool.unshare, Pool.adjust]
    cases hmember : pool.members.find? name with
    | none => exact .missing
    | some member => exact .unshared hmember
  | drop name =>
    rw [Pool.apply, Pool.drop]
    cases hmember : pool.members.find? name with
    | none => exact .missing
    | some member => exact .dropped hmember
  | openCollector handle => exact .opened
  | copyHandle handle copy =>
    rw [Pool.apply]
    cases hhandle : pool.handles.find? handle with
    | none => exact .missing
    | some collector => exact .copied hhandle
  | handleOf handle name =>
    rw [Pool.apply]
    cases hmember : pool.members.find? name with
    | none => exact .missing
    | some member =>
      cases hcollector : member.collector with
      | none =>
        rw [Option.bind_some, hcollector]
        exact .missing
      | some collector =>
        rw [Option.bind_some, hcollector]
        exact .handed hmember hcollector
  | recordHarvest handle stats => exact step_recordAt pool rfl
  | recordFailure handle => exact step_recordAt pool rfl
  | reset handle => exact step_recordAt pool rfl

end Apply

/-- No step mixes up the order of the names. -/
theorem Step.sorted {pool : Pool π} {command : Command π} {effect : Effect π}
    (hstep : Step pool command effect) (h : pool.members.Sorted) :
    effect.state.members.Sorted := by
  cases hstep with
  | missing | popMissed | opened | copied | handed | recorded => exact h
  | placedLocal | placedShared | popped | hooked | supplied | unshared => exact h.put _ _
  | added | harvested =>
    simp only [Transition.quiet, members_recordFor]
    exact h.put _ _
  | merged =>
    simp only [members_recordFor]
    exact (h.erase _).put _ _
  | shared hmember hcollector =>
    simp only [Transition.quiet, update, members_of_collectorFor hcollector]
    exact h.put _ _
  | dropped => exact h.erase _

section Merge

variable {pool : Pool π} {name donor : String} {member other : Member π}

/-- A merge takes the donor out of the pool, and notes a failure in the receiver's collector. -/
theorem apply_merge (hne : name ≠ donor) (hmember : pool.members.find? name = some member)
    (hother : pool.members.find? donor = some other) :
    let step := member.reservoir.merge member.memory other.reservoir
    pool.apply (.merge name donor) =
      ⟨.merged step.answer,
        ({ pool with members :=
            (pool.members.erase donor).put name { member with reservoir := step.state } } :
          Pool π).recordFor member (failureNote step.answer), step.discards⟩ := by
  rw [← Directory.find?_erase_of_ne hne] at hmember
  simp only [Pool.apply, Pool.merge, hmember, hother]

/-- After a merge the receiver is found under its name, and nothing under that of the donor. -/
theorem reservoir?_apply_merge (hne : name ≠ donor)
    (hmember : pool.members.find? name = some member)
    (hother : pool.members.find? donor = some other) :
    let after := (pool.apply (.merge name donor)).state
    after.reservoir? name = some (member.reservoir.merge member.memory other.reservoir).state ∧
      after.reservoir? donor = none := by
  rw [apply_merge hne hmember hother]
  simp only [reservoir?, members_recordFor, Directory.find?_put_self,
    Directory.find?_put_of_ne hne.symm, Directory.find?_erase_self]
  exact ⟨rfl, rfl⟩

end Merge

/-! ## Histories -/

theorem sorted_run {pool : Pool π} (h : pool.members.Sorted) (history : List (Command π)) :
    (pool.run history).state.members.Sorted := by
  induction history generalizing pool with
  | nil => exact h
  | cons command later ih => exact ih ((step_apply pool command).sorted h)

theorem run_append (pool : Pool π) (earlier later : List (Command π)) :
    pool.run (earlier ++ later) =
      let first := pool.run earlier
      let rest := first.state.run later
      ⟨first.answer ++ rest.answer, rest.state, first.discards ++ rest.discards⟩ := by
  induction earlier generalizing pool with
  | nil => rfl
  | cons command earlier ih =>
    rw [List.cons_append, run, ih]
    simp only [run, List.cons_append, List.append_assoc]

/-- Each command of a history is allowed in the pool that it meets. -/
def Along (allowed : Pool π → Command π → Prop) (pool : Pool π) : List (Command π) → Prop
  | [] => True
  | command :: later => allowed pool command ∧ Along allowed (pool.apply command).state later

instance decidableAlong (allowed : Pool π → Command π → Prop)
    [∀ pool command, Decidable (allowed pool command)] :
    (pool : Pool π) → (history : List (Command π)) → Decidable (Along allowed pool history)
  | _, [] => .isTrue trivial
  | pool, command :: later =>
    have := decidableAlong allowed (pool.apply command).state later
    inferInstanceAs (Decidable (allowed pool command ∧ _))

end Pool

end PrioritySampling
