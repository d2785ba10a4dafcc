import PrioritySampling.Proofs.Alike
import PrioritySampling.Proofs.Whereabouts
/-!
# Cycles start afresh

A harvest empties a reservoir and sets its counts to zero, so that the next cycle begins as the
first one did.  The one thing that stays is the storage: a reservoir without limit keeps all the
slots that it has come to reserve, while one with a limit reserves the same number at all times.
So after a harvest a reservoir is a new one but for its storage, and `Alike.run` tells that what
follows comes to the same as with a new one.

That there is a new reservoir to compare with is a fact about names and limits: those of a
reservoir in a pool are the ones that it was made with.
-/

namespace PrioritySampling

namespace Reservoir

variable {π : Type}

/-! ## New reservoirs -/

/-- What a reservoir keeps from one cycle to the next: its name, its limit and its hook. -/
def frame (reservoir : Reservoir π) : String × Limit × Option Hook :=
  (reservoir.name, reservoir.heap.limit, reservoir.heap.hook)

section Frame

variable {reservoir : Reservoir π}

theorem name_offer (memory : Memory) (event : Event π) (reservoir : Reservoir π) :
    (reservoir.offer memory event).state.name = reservoir.name := by
  rw [offer]
  split
  · rename_i outcome houtcome
    cases outcome with
    | inserted | replaced | rejected => rfl
  · rfl

theorem frame_offer (hsound : reservoir.heap.Sound) (memory : Memory) (event : Event π) :
    (reservoir.offer memory event).state.frame = reservoir.frame := by
  obtain ⟨hlimit, hhook⟩ := (MinMaxHeap.offer_insert hsound memory event).unchanged
  rw [frame, name_offer, heap_offer, hlimit, hhook]
  rfl

theorem frame_add (hsound : reservoir.heap.Sound) (memory : Memory) (event : Event π) :
    (reservoir.add memory event).state.frame = reservoir.frame := by
  have hseen : ({ reservoir with seen := reservoir.seen + 1 } : Reservoir π).heap.Sound := hsound
  exact frame_offer hseen memory event

theorem frame_absorb (hsound : reservoir.heap.Sound) (memory : Memory) (events : List (Event π)) :
    (reservoir.absorb memory events).state.frame = reservoir.frame := by
  induction events generalizing reservoir with
  | nil => rfl
  | cons event later ih =>
    have hframe := frame_offer hsound memory event
    rw [absorb]
    split
    · exact (ih (sound_offer hsound memory event)).trans hframe
    · exact hframe

theorem frame_merge (hsound : reservoir.heap.Sound) (memory : Memory) (other : Reservoir π) :
    (reservoir.merge memory other).state.frame = reservoir.frame := by
  have hcounted : (reservoir.addCounts other).heap.Sound := hsound
  exact frame_absorb hcounted memory other.events

theorem frame_pop {side : Side} {event : Event π} {rest : Reservoir π}
    (hpop : reservoir.pop side = some (event, rest)) : rest.frame = reservoir.frame := by
  simp only [Reservoir.pop, Option.map_eq_some_iff] at hpop
  obtain ⟨⟨_, heap⟩, hpop, ⟨⟩⟩ := hpop
  rw [MinMaxHeap.eq_of_pop hpop]
  rfl

theorem state_harvest (reservoir : Reservoir π) :
    reservoir.harvest.2 = fresh reservoir.name { reservoir.heap with items := #[] } := by
  simp only [harvest, (MinMaxHeap.drain_spec .high reservoir.heap).2]

/-- The counts that a harvest reports are those from before it, and the events held are the ones
that it hands over. -/
theorem account_harvest (hsound : reservoir.heap.Sound) :
    reservoir.harvest.1.stats = reservoir.stats ∧
      reservoir.harvest.1.stats.saved.toNat = reservoir.harvest.1.events.length := by
  have hlt : reservoir.heap.size < UInt64.size :=
    Nat.lt_trans (Nat.lt_of_le_of_lt hsound.size_le hsound.capacity_lt) (by decide)
  refine ⟨rfl, ?_⟩
  rw [(perm_harvest reservoir).1.length_eq]
  exact UInt64.toNat_ofNat_of_lt' hlt

/-- A harvested reservoir is a new one in the storage that it had. -/
theorem Made.withSlots_eq {start : Reservoir π} (hstart : start.Made)
    (hframe : start.frame = reservoir.frame) :
    start.withSlots reservoir.heap.capacity = reservoir.harvest.2 := by
  obtain ⟨name, heap, hheap, rfl⟩ := hstart.exists_heap
  have hitems : heap.items = #[] := Array.toList_eq_nil_iff.mp hheap.toList_eq_nil
  simp only [frame, fresh, Prod.mk.injEq] at hframe
  obtain ⟨hname, hlimit, hhook⟩ := hframe
  rw [state_harvest]
  simp only [withSlots, MinMaxHeap.withCapacity, fresh, hitems, hname, hlimit, hhook]

/-- A limit leaves no choice of storage. -/
theorem Made.withSlots_of_bounded {start : Reservoir π} (hstart : start.Made)
    (hsound : reservoir.heap.Sound) (hframe : start.frame = reservoir.frame)
    (hlimit : reservoir.heap.limit ≠ .unbounded) :
    start.withSlots reservoir.heap.capacity = start := by
  have hsame : start.heap.limit = reservoir.heap.limit := congrArg (·.2.1) hframe
  cases hcount : reservoir.heap.limit with
  | unbounded => exact absurd hcount hlimit
  | atMost count =>
    rw [hcount] at hsame
    have hslots := hstart.accounts.sound.capacity_eq count hsame
    rw [hsound.capacity_eq count hcount, ← hslots]
    rfl

end Frame

end Reservoir

namespace Pool

variable {π : Type}

/-! ## Renewal -/

/-- There are new reservoirs with the names, limits and hooks of all those in the pool. -/
def AllRenewable (members : Directory (Member π)) : Prop :=
  ∀ name member, members.find? name = some member →
    ∃ start : Reservoir π, start.Made ∧ start.frame = member.reservoir.frame

theorem allRenewable_empty : AllRenewable (empty : Pool π).members :=
  fun _ _ hmember => absurd hmember nofun

section Renewable

variable {pool : Pool π} {members : Directory (Member π)} {name : String}
  {member member' : Member π}

theorem AllRenewable.update (h : AllRenewable members) (hmember : members.find? name = some member)
    (hframe : member'.reservoir.frame = member.reservoir.frame) :
    AllRenewable (members.put name member') := by
  refine Directory.forall_find?_put ?_ fun other held _ hheld => h other held hheld
  rw [hframe]
  exact h name member hmember

theorem Step.allRenewable {command : Command π} {effect : Effect π}
    (hstep : Step pool command effect) (horderly : pool.Orderly) (h : AllRenewable pool.members)
    (hnew : command.PlacesNew) : AllRenewable effect.state.members := by
  cases hstep with
  | missing | popMissed | opened | copied | handed | recorded => exact h
  | placedLocal | placedShared =>
    exact Directory.forall_find?_put ⟨_, hnew, rfl⟩ fun other held _ hheld => h other held hheld
  | added hmember hstep =>
    subst hstep
    simp only [members_recordFor]
    exact h.update hmember (Reservoir.frame_add (horderly.sound _ _ hmember) _ _)
  | @merged name donor member other step hne hmember hother hstep =>
    subst hstep
    have hframe := Reservoir.frame_merge (horderly.sound name member hmember) member.memory
      other.reservoir
    have hothers : AllRenewable (pool.members.erase donor) :=
      Directory.forall_find?_erase fun third held _ hheld => h third held hheld
    simp only [members_recordFor]
    rw [← Directory.find?_erase_of_ne hne] at hmember
    exact hothers.update hmember hframe
  | popped hmember hpop => exact h.update hmember (Reservoir.frame_pop hpop)
  | @harvested name member hmember =>
    have hframe : member.reservoir.harvest.2.frame = member.reservoir.frame := by
      rw [Reservoir.state_harvest]
      rfl
    simp only [Transition.quiet, members_recordFor]
    exact h.update hmember hframe
  | @hooked name hook member hmember =>
    obtain ⟨start, hstart, hframe⟩ := h name member hmember
    have hhooked : (start.setHook hook).frame = (member.reservoir.setHook hook).frame :=
      congrArg (fun frame => (frame.1, frame.2.1, some hook)) hframe
    exact Directory.forall_find?_put ⟨_, hstart.hooked hook, hhooked⟩
      fun other held _ hheld => h other held hheld
  | supplied hmember | unshared hmember => exact h.update hmember rfl
  | shared hmember hcollector =>
    simp only [Transition.quiet, update, members_of_collectorFor hcollector]
    exact h.update hmember rfl
  | dropped hmember =>
    exact Directory.forall_find?_erase fun third held _ hheld => h third held hheld

/-- A harvest empties the reservoir, and notes its account in the collector. -/
theorem apply_harvest (hmember : pool.members.find? name = some member) :
    pool.apply (.harvest name) =
      .quiet (.harvested member.reservoir.harvest.1)
        ((pool.update name { member with
          reservoir := .fresh member.reservoir.name { member.reservoir.heap with items := #[] } }
          ).recordFor member (Totals.recordHarvest member.reservoir.stats)) := by
  rw [Pool.apply, Pool.harvest, hmember]
  simp only [Reservoir.state_harvest]
  rfl

/-- A member in storage of another size makes an alike pool. -/
theorem alike_update (slots : Nat) (hmember : pool.members.find? name = some member) :
    pool.Alike (pool.update name (member.withSlots slots)) := by
  refine ⟨fun other => ?_, rfl, rfl⟩
  by_cases hother : other = name
  · rw [hother, hmember]
    exact ⟨slots, Directory.find?_put_self name _ _⟩
  · have hfind := Directory.find?_put_of_ne hother (member.withSlots slots) pool.members
    cases hheld : pool.members.find? other with
    | none => exact ⟨0, hfind.trans hheld⟩
    | some held => exact ⟨held.reservoir.heap.capacity, hfind.trans hheld⟩

end Renewable

/-- A harvest reports the counts from before it with as many events as it says were held, discards
nothing, and starts a fresh cycle.  The reservoir is then the same as a new one with its name,
limit and hook, but for the storage that it has come to reserve if there is no limit.  Whatever is
done with the pool from then on comes to the same as if the new reservoir were in its place, as
long as no call fails. -/
theorem renewal_of_run {history : List (Command π)} {name : String} {member : Member π}
    (hnew : ∀ command ∈ history, command.PlacesNew)
    (hmember : (empty.run history).state.members.find? name = some member) :
    let reservoir := member.reservoir
    let step := (empty.run history).state.apply (.harvest name)
    (∃ harvest, step.answer = .harvested harvest ∧ harvest.stats = reservoir.stats ∧
      harvest.stats.saved.toNat = harvest.events.length) ∧
    step.discards = [] ∧
    (∃ start : Reservoir π, start.Made ∧ start.frame = reservoir.frame) ∧
    ∀ start : Reservoir π, start.Made → start.frame = reservoir.frame →
      step.state.reservoir? name = some (start.withSlots reservoir.heap.capacity) ∧
      (reservoir.heap.limit ≠ .unbounded → start.withSlots reservoir.heap.capacity = start) ∧
      let begun := step.state.update name { member with reservoir := start }
      ∀ later : List (Command π),
        (∀ answer ∈ (step.state.run later).answer, answer.succeeded = true) →
        (∀ answer ∈ (begun.run later).answer, answer.succeeded = true) →
        (step.state.run later).Agree Alike (begun.run later) := by
  intro reservoir step
  have horderly : (empty.run history).state.Orderly := orderly_empty.run hnew
  have hsound : reservoir.heap.Sound := horderly.sound name member hmember
  have hrenewable := orderly_empty.run_induction Step.allRenewable allRenewable_empty hnew
  have hstep : step = _ := apply_harvest hmember
  have hrenewed : step.state.members.find? name =
      some { member with reservoir := reservoir.harvest.2 } := by
    rw [hstep, Reservoir.state_harvest]
    simp only [Transition.quiet, members_recordFor]
    exact Directory.find?_put_self name _ _
  refine ⟨⟨reservoir.harvest.1, congrArg Transition.answer hstep, ?_⟩,
    congrArg Transition.discards hstep, hrenewable name member hmember, ?_⟩
  · exact Reservoir.account_harvest hsound
  · intro start hstart hframe
    have hsame := hstart.withSlots_eq hframe
    refine ⟨?_, hstart.withSlots_of_bounded hsound hframe, ?_⟩
    · rw [reservoir?, hrenewed, hsame]
      rfl
    · intro begun later hlater hlater'
      have halike := alike_update start.heap.capacity hrenewed
      rw [Member.withSlots, ← hsame] at halike
      exact Alike.run halike hlater hlater'

theorem renewal_of_run_grown :
    ∃ (history later : List (Command Unit)) (member : Member Unit) (start : Reservoir Unit),
      (∀ command ∈ history, command.PlacesNew) ∧
      (empty.run history).state.members.find? "events" = some member ∧
      start.Made ∧ start.frame = member.reservoir.frame ∧
      member.reservoir.heap.capacity = 16 ∧ start.heap.capacity = 8 ∧
      let step := (empty.run history).state.apply (.harvest "events")
      let begun := step.state.update "events" { member with reservoir := start }
      step.state.reservoir? "events" = some (start.withSlots 16) ∧
      (begun.run later).discards.length = 8 ∧
      (step.state.run later).Agree Alike (begun.run later) := by
  let event (timestamp : UInt64) : Event Unit := ⟨.zero, timestamp, ()⟩
  let start : Reservoir Unit := Reservoir.unlimited.setHook "hook"
  have hstart : start.Made := .hooked .unlimited "hook"
  let offers : List (Command Unit) :=
    [1, 2, 3, 4, 5, 6, 7, 8].map fun timestamp => .add "events" (event timestamp)
  let history : List (Command Unit) :=
    .placeShared "events" start :: offers ++ [.setMemory "events" (.upTo 8),
      .add "events" (event 9), .setMemory "events" .ample, .add "events" (event 10),
      .pop "events" .low]
  let later : List (Command Unit) :=
    offers ++ [.add "events" (event 9), .pop "events" .high, .drop "events"]
  have hnew : ∀ command ∈ history, command.PlacesNew := by
    simp only [history, offers, List.map_cons, List.map_nil, List.cons_append, List.nil_append,
      List.forall_mem_cons, Command.PlacesNew]
    simp [hstart]
  let member := ((empty.run history).state.members.find? "events").get (by decide +kernel)
  have hmember : (empty.run history).state.members.find? "events" = some member :=
    (Option.some_get _).symm
  have hframe : start.frame = member.reservoir.frame := by decide +kernel
  have hcapacity : member.reservoir.heap.capacity = 16 := by decide +kernel
  have hharvest := apply_harvest hmember
  let renewed := ((empty.run history).state.apply (.harvest "events")).state
  let begun := renewed.update "events" { member with reservoir := start }
  have hlater : ∀ answer ∈ (renewed.run later).answer, answer.succeeded = true := by
    simp only [renewed, hharvest]
    decide +kernel
  have hlater' : ∀ answer ∈ (begun.run later).answer, answer.succeeded = true := by
    simp only [begun, renewed, hharvest]
    decide +kernel
  have hdiscards : (begun.run later).discards.length = 8 := by
    simp only [begun, renewed, hharvest]
    decide +kernel
  clear_value member history later
  obtain ⟨-, -, -, hrenewal⟩ := renewal_of_run hnew hmember
  obtain ⟨hstate, -, hruns⟩ := hrenewal start hstart hframe
  rw [hcapacity] at hstate
  exact ⟨history, later, member, start, hnew, hmember, hstart, hframe, hcapacity, rfl, hstate,
    hdiscards, hruns later hlater hlater'⟩

end Pool

end PrioritySampling
