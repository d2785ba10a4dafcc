import PrioritySampling.Proofs.Disposal
import PrioritySampling.Proofs.Steps
/-!
# Where the events are

Every event that was ever offered to a reservoir of a pool is in one place: some reservoir retains
it, a pop or a harvest has returned it, a hook has received it, or it was discarded where there
was no hook.  Events move between reservoirs in merges, and on no such way is one lost or doubled.

What a command discards goes to the hook of one reservoir, the one that the command adds to, merges
into, drops or replaces.  `Disposes` lists the cases.  In a merge it is the receiver that discards,
and the hook of the donor receives nothing.
-/

namespace PrioritySampling

namespace MinMaxHeap

variable {α : Type} {cmp : Comparator α}

/-! ## Losses of a heap -/

/-- The values that are lost when some are offered to a heap one by one until storage fails: those
turned away, those evicted, and then the one that there was no storage for with all that would
have come after it. -/
inductive Loses (memory : Memory) : MinMaxHeap α cmp → List α → List α → Prop
  | done {heap : MinMaxHeap α cmp} : Loses memory heap [] []
  | inserted {heap : MinMaxHeap α cmp} {value : α} {later lost : List α}
      (hroom : heap.isFull = false)
      (hlater : Loses memory (heap.insert memory value).state later lost) :
      Loses memory heap (value :: later) lost
  | rejected {heap : MinMaxHeap α cmp} {value least : α} {later lost : List α}
      (hfull : heap.isFull = true) (hleast : heap.min? = some least)
      (hvalue : cmp.greater value least = false)
      (hlater : Loses memory (heap.insert memory value).state later lost) :
      Loses memory heap (value :: later) (value :: lost)
  | evicted {heap : MinMaxHeap α cmp} {value least : α} {later lost : List α}
      (hfull : heap.isFull = true) (hleast : heap.min? = some least)
      (hvalue : cmp.greater value least = true)
      (hlater : Loses memory (heap.insert memory value).state later lost) :
      Loses memory heap (value :: later) (least :: lost)
  | refused {heap : MinMaxHeap α cmp} {value : α} {later : List α}
      (hlimit : heap.limit = .unbounded) (hsize : heap.size = heap.capacity)
      (hreserves : memory.reserves (2 * heap.capacity) = false) :
      Loses memory heap (value :: later) (value :: later)

/-- What one accepted offer discards is lost before all that later offers lose. -/
theorem Offer.loses {heap : MinMaxHeap α cmp} {memory : Memory} {value : α} {later lost : List α}
    {outcome : Insertion} (hoffer : Offer memory value heap (heap.insert memory value))
    (hanswer : (heap.insert memory value).answer = .ok outcome)
    (hlater : Loses memory (heap.insert memory value).state later lost) :
    ∃ first, (heap.insert memory value).discards = heap.discard first ∧
      Loses memory heap (value :: later) (first ++ lost) := by
  generalize hstep : heap.insert memory value = step at hoffer hanswer
  cases hoffer with
  | inserted hfull hroom => exact ⟨[], rfl, .inserted hfull hlater⟩
  | refused hlimit hsize hreserves => cases hanswer
  | rejected hfull hleast hvalue => exact ⟨[value], rfl, .rejected hfull hleast hvalue hlater⟩
  | @replaced least rest hfull hpop hvalue =>
    exact ⟨[least], rfl, .evicted hfull (peek_of_pop hpop) hvalue hlater⟩

/-- A refused offer loses the value and all later ones. -/
theorem Offer.loses_of_error {heap : MinMaxHeap α cmp} {memory : Memory} {value : α}
    {failure : Error} (hoffer : Offer memory value heap (heap.insert memory value))
    (hanswer : (heap.insert memory value).answer = .error failure) (later : List α) :
    (heap.insert memory value).discards = heap.discard [value] ∧
      (heap.insert memory value).state = heap ∧
      Loses memory heap (value :: later) (value :: later) := by
  generalize heap.insert memory value = step at hoffer hanswer
  cases hoffer with
  | refused hlimit hsize hreserves => exact ⟨rfl, rfl, .refused hlimit hsize hreserves⟩
  | _ => cases hanswer

end MinMaxHeap

namespace Reservoir

variable {π : Type} {reservoir : Reservoir π} {memory : Memory}

/-! ## One reservoir -/

/-! ### The hook stays -/

theorem hook_offer (hsound : reservoir.heap.Sound) (memory : Memory) (event : Event π) :
    (reservoir.offer memory event).state.heap.hook = reservoir.heap.hook := by
  rw [heap_offer]
  exact (MinMaxHeap.offer_insert hsound memory event).unchanged.2

theorem hook_add (hsound : reservoir.heap.Sound) (memory : Memory) (event : Event π) :
    (reservoir.add memory event).state.heap.hook = reservoir.heap.hook := by
  rw [heap_add]
  exact (MinMaxHeap.offer_insert hsound memory event).unchanged.2

theorem hook_absorb (hsound : reservoir.heap.Sound) (memory : Memory) (events : List (Event π)) :
    (reservoir.absorb memory events).state.heap.hook = reservoir.heap.hook := by
  induction events generalizing reservoir with
  | nil => rfl
  | cons event later ih =>
    have hhook := hook_offer hsound memory event
    rw [absorb, answer_offer]
    cases hanswer : (reservoir.heap.insert memory event).answer with
    | ok outcome =>
      exact (ih (sound_offer hsound memory event)).trans hhook
    | error failure => exact hhook

theorem hook_merge (hsound : reservoir.heap.Sound) (memory : Memory) (other : Reservoir π) :
    (reservoir.merge memory other).state.heap.hook = reservoir.heap.hook := by
  have hcounted : (reservoir.addCounts other).heap.Sound := hsound
  exact hook_absorb hcounted memory other.events

theorem hook_pop {side : Side} {event : Event π} {rest : Reservoir π}
    (hpop : reservoir.pop side = some (event, rest)) :
    rest.heap.hook = reservoir.heap.hook := by
  simp only [Reservoir.pop, Option.map_eq_some_iff] at hpop
  obtain ⟨⟨_, heap⟩, hpop, ⟨⟩⟩ := hpop
  rw [MinMaxHeap.eq_of_pop hpop]

theorem hook_harvest (reservoir : Reservoir π) :
    reservoir.harvest.2.heap.hook = reservoir.heap.hook := by
  simp only [Reservoir.harvest, (MinMaxHeap.drain_spec .high reservoir.heap).2]
  rfl

/-! ### The discards -/

/-- An addition loses what the heap loses, to the hook that is installed. -/
theorem discards_add_eq (hsound : reservoir.heap.Sound) (memory : Memory) (event : Event π) :
    ∃ lost, reservoir.heap.Loses memory [event] lost ∧
      (reservoir.add memory event).discards = reservoir.heap.discard lost := by
  have hoffer := MinMaxHeap.offer_insert hsound memory event
  rw [discards_add]
  cases hanswer : (reservoir.heap.insert memory event).answer with
  | ok outcome =>
    obtain ⟨first, hdiscards, hloses⟩ := hoffer.loses hanswer .done
    exact ⟨first ++ [], hloses, by rw [hdiscards, List.append_nil]⟩
  | error failure =>
    obtain ⟨hdiscards, -, hloses⟩ := hoffer.loses_of_error hanswer []
    exact ⟨[event], hloses, hdiscards⟩

theorem discards_absorb_eq (hsound : reservoir.heap.Sound) (memory : Memory)
    (events : List (Event π)) :
    ∃ lost, reservoir.heap.Loses memory events lost ∧
      (reservoir.absorb memory events).discards = reservoir.heap.discard lost := by
  induction events generalizing reservoir with
  | nil => exact ⟨[], .done, rfl⟩
  | cons event later ih =>
    have hoffer := MinMaxHeap.offer_insert hsound memory event
    have hheap := heap_offer memory event reservoir
    rw [absorb, answer_offer, discards_offer]
    cases hanswer : (reservoir.heap.insert memory event).answer with
    | ok outcome =>
      obtain ⟨lost, hlater, hdiscards⟩ := ih (sound_offer hsound memory event)
      rw [hheap] at hlater
      obtain ⟨first, hfirst, hloses⟩ := hoffer.loses hanswer hlater
      have hhook := hook_offer hsound memory event
      refine ⟨first ++ lost, hloses, ?_⟩
      simp only [Transition.after, hfirst, hdiscards, MinMaxHeap.discard, hhook, List.map_append]
    | error failure =>
      obtain ⟨hdiscards, hstate, hloses⟩ := hoffer.loses_of_error hanswer later
      refine ⟨event :: later, hloses, ?_⟩
      simp only [hheap, hstate, hdiscards]
      rfl

theorem discards_merge_eq (hsound : reservoir.heap.Sound) (memory : Memory)
    (other : Reservoir π) :
    ∃ lost, reservoir.heap.Loses memory other.events lost ∧
      (reservoir.merge memory other).discards = reservoir.heap.discard lost := by
  have hcounted : (reservoir.addCounts other).heap.Sound := hsound
  exact discards_absorb_eq hcounted memory other.events

/-! ### Nothing is lost, nothing is doubled -/

/-- After an addition the events from before and the new one are discarded or held. -/
theorem perm_add (hsound : reservoir.heap.Sound) (memory : Memory) (event : Event π) :
    (event :: reservoir.events).Perm ((reservoir.add memory event).discards.map Discard.value ++
      (reservoir.add memory event).state.events) := by
  rw [events, events, discards_add, heap_add]
  exact (MinMaxHeap.offer_insert hsound memory event).perm

theorem perm_absorb (hsound : reservoir.heap.Sound) (memory : Memory)
    (events : List (Event π)) :
    (events ++ reservoir.events).Perm
      ((reservoir.absorb memory events).discards.map Discard.value ++
        (reservoir.absorb memory events).state.events) := by
  classical
  induction events generalizing reservoir with
  | nil => exact .refl _
  | cons event later ih =>
    have hoffer := MinMaxHeap.offer_insert hsound memory event
    have hheap := heap_offer memory event reservoir
    have hperm := hoffer.perm
    rw [← hheap, ← discards_offer] at hperm
    rw [absorb, answer_offer]
    refine List.perm_iff_count.mpr fun other => ?_
    have hfirst := hperm.count_eq other
    cases hanswer : (reservoir.heap.insert memory event).answer with
    | ok outcome =>
      have hlater := (ih (sound_offer hsound memory event)).count_eq other
      simp only [Transition.after, List.map_append, List.cons_append, List.count_append,
        List.count_cons, events] at hfirst hlater ⊢
      omega
    | error failure =>
      simp only [List.map_append, MinMaxHeap.map_value_discard, List.cons_append,
        List.count_append, List.count_cons, events] at hfirst ⊢
      omega

/-- After a merge the events of both reservoirs are discarded or held by the receiver. -/
theorem perm_merge (hsound : reservoir.heap.Sound) (memory : Memory) (other : Reservoir π) :
    (other.events ++ reservoir.events).Perm
      ((reservoir.merge memory other).discards.map Discard.value ++
        (reservoir.merge memory other).state.events) := by
  have hcounted : (reservoir.addCounts other).heap.Sound := hsound
  exact perm_absorb hcounted memory other.events

theorem Made.events_eq_nil (h : reservoir.Made) : reservoir.events = [] := by
  obtain ⟨name, heap, hheap, rfl⟩ := h.exists_heap
  exact hheap.toList_eq_nil

theorem perm_pop {side : Side} {event : Event π} {rest : Reservoir π}
    (hpop : reservoir.pop side = some (event, rest)) :
    reservoir.events.Perm (event :: rest.events) := by
  simp only [Reservoir.pop, Option.map_eq_some_iff] at hpop
  obtain ⟨⟨_, heap⟩, hpop, ⟨⟩⟩ := hpop
  exact MinMaxHeap.toList_of_pop hpop

theorem perm_harvest (reservoir : Reservoir π) :
    reservoir.harvest.1.events.Perm reservoir.events ∧ reservoir.harvest.2.events = [] := by
  obtain ⟨hperm, hrest⟩ := MinMaxHeap.drain_spec .high reservoir.heap
  refine ⟨hperm, ?_⟩
  simp only [Reservoir.harvest, hrest]
  rfl

end Reservoir

namespace Pool

open MinMaxHeap (delivered lost delivered_append_lost_perm)

variable {π : Type}

/-! ## One command -/

/-- The event that a command offered to a reservoir, if it found one. -/
def Command.offered : Command π → Answer π → List (Event π)
  | .add _ event, .added _ => [event]
  | _, _ => []

/-- The events that an answer hands to the caller. -/
def Answer.returned : Answer π → List (Event π)
  | .taken (some event) => [event]
  | .harvested harvest => harvest.events
  | _ => []

/-- The reservoir that a command puts under a name. -/
def Command.placed? : Command π → Option (String × Reservoir π)
  | .placeLocal name reservoir | .placeShared name reservoir => some (name, reservoir)
  | _ => none

/-- The command may cause a reservoir to discard events. -/
def Command.mayDiscard : Command π → Bool
  | .placeLocal _ _ | .placeShared _ _ | .add _ _ | .merge _ _ | .drop _ => true
  | _ => false

/-- The name under which a command installs a hook, or puts a reservoir with a hook of its own. -/
def Command.rehooked? : Command π → Option String
  | .placeLocal name _ | .placeShared name _ | .setHook name _ => some name
  | _ => none

/-- The hook that receives what a command discards, and the events, by what the command does and
answers. -/
inductive Disposes (pool : Pool π) :
    Command π → Answer π → Option Hook → List (Event π) → Prop
  | added {name : String} {event : Event π} {member : Member π} {outcome : Except Error Bool}
      {lost : List (Event π)} (hmember : pool.members.find? name = some member)
      (hlost : member.reservoir.heap.Loses member.memory [event] lost) :
      Disposes pool (.add name event) (.added outcome) member.reservoir.heap.hook lost
  | merged {name donor : String} {member other : Member π} {outcome : Except Error Unit}
      {lost : List (Event π)} (hmember : pool.members.find? name = some member)
      (hother : pool.members.find? donor = some other)
      (hlost : member.reservoir.heap.Loses member.memory other.reservoir.events lost) :
      Disposes pool (.merge name donor) (.merged outcome) member.reservoir.heap.hook lost
  | dropped {name : String} {member : Member π}
      (hmember : pool.members.find? name = some member) :
      Disposes pool (.drop name) .done member.reservoir.heap.hook member.reservoir.events
  | replaced {command : Command π} {name : String} {reservoir : Reservoir π} {member : Member π}
      (hplaced : command.placed? = some (name, reservoir))
      (hmember : pool.members.find? name = some member) :
      Disposes pool command .done member.reservoir.heap.hook member.reservoir.events
  | placed {command : Command π} {name : String} {reservoir : Reservoir π}
      (hplaced : command.placed? = some (name, reservoir))
      (hfree : pool.members.find? name = none) : Disposes pool command .done none []
  | missing {command : Command π} : Disposes pool command .missing none []
  | quiet {command : Command π} {answer : Answer π} (hquiet : command.mayDiscard = false) :
      Disposes pool command answer none []

/-- The events that the reservoirs of a pool hold. -/
def retained (members : Directory (Member π)) : List (Event π) :=
  members.entries.flatMap fun entry => entry.2.reservoir.events

/-- The names of a pool rise, and there are books that agree with it. -/
structure Orderly (pool : Pool π) : Prop where
  sorted : pool.members.Sorted
  kept : ∃ books added, Kept pool.members books added

theorem orderly_empty : (empty : Pool π).Orderly :=
  ⟨Directory.sorted_empty, .blank, 0, kept_empty⟩

theorem Orderly.sound {pool : Pool π} (h : pool.Orderly) (name : String) (member : Member π)
    (hmember : pool.members.find? name = some member) : member.reservoir.heap.Sound := by
  obtain ⟨books, added, hkept⟩ := h.kept
  exact (hkept.accounts name member hmember).sound

theorem Orderly.apply {pool : Pool π} {command : Command π} (h : pool.Orderly)
    (hnew : command.PlacesNew) : (pool.apply command).state.Orderly := by
  obtain ⟨books, added, hkept⟩ := h.kept
  exact ⟨(step_apply pool command).sorted h.sorted, _, _, hkept.apply hnew⟩

theorem Orderly.run {pool : Pool π} {history : List (Command π)} (h : pool.Orderly)
    (hnew : ∀ command ∈ history, command.PlacesNew) : (pool.run history).state.Orderly := by
  obtain ⟨books, added, hkept⟩ := h.kept
  exact ⟨sorted_run h.sorted history, _, _, hkept.run hnew⟩

/-- What every command keeps true holds after every history. -/
theorem Orderly.run_induction {P : Directory (Member π) → Prop}
    (hstep : ∀ {pool : Pool π} {command : Command π} {effect : Effect π},
      Step pool command effect → pool.Orderly → P pool.members → command.PlacesNew →
        P effect.state.members)
    {pool : Pool π} {history : List (Command π)} (h : pool.Orderly) (hmembers : P pool.members)
    (hnew : ∀ command ∈ history, command.PlacesNew) : P (pool.run history).state.members := by
  induction history generalizing pool with
  | nil => exact hmembers
  | cons command later ih =>
    obtain ⟨hfirst, hlater⟩ := List.forall_mem_cons.mp hnew
    have hstepped := hstep (step_apply pool command) h hmembers hfirst
    exact ih (h.apply hfirst) hstepped hlater

section Retained

variable {members : Directory (Member π)} {name : String} {member member' : Member π}
  {arrived gone : List (Event π)}

theorem retained_put (h : members.Sorted) (name : String) (member : Member π) :
    (retained (members.put name member)).Perm
      (member.reservoir.events ++ retained (members.erase name)) :=
  h.flatMap_put (fun entry : String × Member π => entry.2.reservoir.events) name member

theorem retained_of_find? (h : members.Sorted) (hmember : members.find? name = some member) :
    (retained members).Perm (member.reservoir.events ++ retained (members.erase name)) :=
  h.flatMap_of_find? (fun entry : String × Member π => entry.2.reservoir.events) hmember

/-- What changes in one reservoir changes in the pool. -/
theorem retained_update (h : members.Sorted) (hmember : members.find? name = some member)
    (hperm : (member.reservoir.events ++ arrived).Perm (member'.reservoir.events ++ gone)) :
    (retained members ++ arrived).Perm (retained (members.put name member') ++ gone) := by
  classical
  refine List.perm_iff_count.mpr fun event => ?_
  have hbefore := (retained_of_find? h hmember).count_eq event
  have hafter := (retained_put h name member').count_eq event
  have hchange := hperm.count_eq event
  simp only [List.count_append] at hbefore hafter hchange ⊢
  omega

/-- What the reservoir that was under a name held is gone, and a new one holds nothing. -/
theorem retained_place (pool : Pool π) (h : pool.members.Sorted) (name : String)
    (member : Member π) (hnew : member.reservoir.Made) :
    (retained pool.members).Perm (retained (pool.place name member).state.members ++
      (pool.place name member).discards.map Discard.value) := by
  have hafter := retained_put h name member
  rw [hnew.events_eq_nil, List.nil_append] at hafter
  simp only [place, reservoir?]
  cases hmember : pool.members.find? name with
  | none =>
    rw [Directory.erase_of_find?_eq_none hmember] at hafter
    rw [Option.map_none, List.map_nil, List.append_nil]
    exact hafter.symm
  | some replaced =>
    simp only [Option.map_some, Reservoir.drop, MinMaxHeap.drop, MinMaxHeap.map_value_discard]
    have hbefore := retained_of_find? h hmember
    exact (hbefore.trans List.perm_append_comm).trans (hafter.symm.append_right _)

end Retained

section Step

variable {pool : Pool π} {command : Command π} {effect : Effect π}

/-- After a command the events from before and the offered one are retained, returned or
discarded. -/
theorem Step.perm (hstep : Step pool command effect) (h : pool.Orderly)
    (hnew : command.PlacesNew) :
    (retained pool.members ++ command.offered effect.answer).Perm
      (retained effect.state.members ++
        (effect.answer.returned ++ effect.discards.map Discard.value)) := by
  cases hstep with
  | @missing command =>
    have hnone : command.offered .missing = [] := by
      cases command with
      | _ => rfl
    simp only [Transition.quiet, hnone]
    exact .refl _
  | @placedLocal name reservoir =>
    have hplace := retained_place pool h.sorted name ⟨reservoir, none, .ample⟩ hnew
    exact (List.Perm.of_eq (List.append_nil _)).trans hplace
  | @placedShared name reservoir =>
    have hplace := retained_place pool.addCollector.2 h.sorted name
      ⟨reservoir, some pool.collectors.length, .ample⟩ hnew
    exact (List.Perm.of_eq (List.append_nil _)).trans hplace
  | @added name event member step hmember hstep =>
    subst hstep
    simp only [members_recordFor]
    refine retained_update h.sorted hmember ?_
    exact (List.perm_append_singleton _ _).trans
      ((Reservoir.perm_add (h.sound name member hmember) member.memory event).trans
        List.perm_append_comm)
  | @merged name donor member other step hne hmember hother hstep =>
    subst hstep
    have hmerge :=
      Reservoir.perm_merge (h.sound name member hmember) member.memory other.reservoir
    rw [← Directory.find?_erase_of_ne hne] at hmember
    simp only [members_recordFor]
    have hdonor := (retained_of_find? h.sorted hother).trans List.perm_append_comm
    refine (List.Perm.of_eq (List.append_nil _)).trans (hdonor.trans ?_)
    refine retained_update (h.sorted.erase donor) hmember ?_
    exact List.perm_append_comm.trans (hmerge.trans List.perm_append_comm)
  | @popped name side member event rest hmember hpop =>
    refine retained_update h.sorted hmember ?_
    exact (List.Perm.of_eq (List.append_nil _)).trans
      ((Reservoir.perm_pop hpop).trans (List.perm_append_singleton event rest.events).symm)
  | @harvested name member hmember =>
    obtain ⟨hperm, hempty⟩ := Reservoir.perm_harvest member.reservoir
    simp only [Transition.quiet, members_recordFor]
    refine retained_update h.sorted hmember ?_
    show (member.reservoir.events ++ []).Perm (member.reservoir.harvest.2.events ++
      (member.reservoir.harvest.1.events ++ []))
    rw [hempty, List.append_nil, List.append_nil, List.nil_append]
    exact hperm.symm
  | dropped hmember =>
    have hdropped := (retained_of_find? h.sorted hmember).trans List.perm_append_comm
    refine (List.Perm.of_eq (List.append_nil _)).trans (hdropped.trans (.of_eq ?_))
    simp only [Reservoir.drop, MinMaxHeap.drop, MinMaxHeap.map_value_discard]
    rfl
  | hooked hmember | supplied hmember | unshared hmember =>
    exact retained_update h.sorted hmember (.refl _)
  | shared hmember hcollector =>
    simp only [Transition.quiet, update, members_of_collectorFor hcollector]
    exact retained_update h.sorted hmember (.refl _)
  | recorded hcommand hhandle =>
    cases command with
    | _ => exact .refl _
  | popMissed | opened | copied | handed => exact .refl _

/-- What a new reservoir replaces is disposed of. -/
theorem disposes_place {pool' : Pool π} {name : String} {reservoir : Reservoir π}
    (hplaced : command.placed? = some (name, reservoir)) (hmembers : pool'.members = pool.members)
    (member : Member π) :
    ∃ hook lost, Disposes pool command .done hook lost ∧
      (pool'.place name member).discards = lost.map (⟨hook, ·⟩) := by
  simp only [place, reservoir?, hmembers]
  cases hmember : pool.members.find? name with
  | none => exact ⟨none, [], .placed hplaced hmember, rfl⟩
  | some replaced => exact ⟨_, _, .replaced hplaced hmember, rfl⟩

theorem Step.disposes (hstep : Step pool command effect) (h : pool.Orderly) :
    ∃ hook lost, Disposes pool command effect.answer hook lost ∧
      effect.discards = lost.map (⟨hook, ·⟩) := by
  cases hstep with
  | missing => exact ⟨none, [], .missing, rfl⟩
  | @placedLocal name reservoir =>
    have hplaced : (Command.placeLocal name reservoir).placed? = some (name, reservoir) := rfl
    exact disposes_place hplaced rfl _
  | @placedShared name reservoir =>
    have hplaced : (Command.placeShared name reservoir).placed? = some (name, reservoir) := rfl
    have hmembers : pool.addCollector.2.members = pool.members := rfl
    exact disposes_place hplaced hmembers _
  | @added name event member step hmember hstep =>
    subst hstep
    obtain ⟨lost, hlost, hdiscards⟩ :=
      Reservoir.discards_add_eq (h.sound name member hmember) member.memory event
    exact ⟨_, lost, .added hmember hlost, hdiscards⟩
  | @merged name donor member other step hne hmember hother hstep =>
    subst hstep
    obtain ⟨lost, hlost, hdiscards⟩ :=
      Reservoir.discards_merge_eq (h.sound name member hmember) member.memory other.reservoir
    exact ⟨_, lost, .merged hmember hother hlost, hdiscards⟩
  | dropped hmember => exact ⟨_, _, .dropped hmember, rfl⟩
  | recorded hcommand hhandle =>
    refine ⟨none, [], .quiet ?_, rfl⟩
    cases command with
    | recordHarvest | recordFailure | reset => rfl
    | _ => cases hcommand
  | popped | popMissed | harvested | hooked | supplied | shared | unshared | opened | copied
  | handed => exact ⟨none, [], .quiet rfl, rfl⟩

/-- The hook of a member is the one that was under its name before, unless a command is meant to
change it. -/
def KeepsHook (pool : Pool π) (command : Command π) (name : String) (member' : Member π) : Prop :=
  ∀ member, command.rehooked? ≠ some name → pool.members.find? name = some member →
    member'.reservoir.heap.hook = member.reservoir.heap.hook

theorem keepsHook_of_find? {name : String} {member : Member π}
    (hmember : pool.members.find? name = some member) : KeepsHook pool command name member := by
  intro other _ hother
  rw [hmember] at hother
  cases hother
  rfl

theorem keepsHook_of_hook_eq {name : String} {member member' : Member π}
    (hmember : pool.members.find? name = some member)
    (hhook : member'.reservoir.heap.hook = member.reservoir.heap.hook) :
    KeepsHook pool command name member' := by
  intro other hcommand hother
  rw [hhook]
  exact keepsHook_of_find? hmember other hcommand hother

/-- When one member is put, no hook under another name changes. -/
theorem keepsHook_put {name : String} {member' : Member π}
    (h : KeepsHook pool command name member') :
    ∀ other held, (pool.members.put name member').find? other = some held →
      KeepsHook pool command other held :=
  Directory.forall_find?_put h fun _ _ _ hheld => keepsHook_of_find? hheld

/-- The hook under a name changes only if another is installed there, or another reservoir is
put there. -/
theorem Step.keepsHook (hstep : Step pool command effect) (h : pool.Orderly) :
    ∀ name member', effect.state.members.find? name = some member' →
      KeepsHook pool command name member' := by
  cases hstep with
  | placedLocal | placedShared | hooked =>
    exact keepsHook_put fun _ hcommand => absurd rfl hcommand
  | added hmember hstep =>
    subst hstep
    simp only [members_recordFor]
    exact keepsHook_put
      (keepsHook_of_hook_eq hmember (Reservoir.hook_add (h.sound _ _ hmember) _ _))
  | @merged name donor member other step hne hmember hother hstep =>
    subst hstep
    have hhook := Reservoir.hook_merge (h.sound name member hmember) member.memory other.reservoir
    have hothers : ∀ third held, (pool.members.erase donor).find? third = some held →
        KeepsHook pool (.merge name donor) third held :=
      Directory.forall_find?_erase fun _ _ _ hheld => keepsHook_of_find? hheld
    simp only [members_recordFor]
    exact Directory.forall_find?_put (keepsHook_of_hook_eq hmember hhook)
      fun third held _ hheld => hothers third held hheld
  | popped hmember hpop =>
    exact keepsHook_put (keepsHook_of_hook_eq hmember (Reservoir.hook_pop hpop))
  | harvested hmember =>
    simp only [Transition.quiet, members_recordFor]
    exact keepsHook_put (keepsHook_of_hook_eq hmember (Reservoir.hook_harvest _))
  | supplied hmember | unshared hmember => exact keepsHook_put (keepsHook_of_hook_eq hmember rfl)
  | shared hmember hcollector =>
    simp only [Transition.quiet, update, members_of_collectorFor hcollector]
    exact keepsHook_put (keepsHook_of_hook_eq hmember rfl)
  | dropped hmember =>
    exact Directory.forall_find?_erase fun _ _ _ hheld => keepsHook_of_find? hheld
  | missing | popMissed | opened | copied | handed | recorded =>
    exact fun _ _ hheld => keepsHook_of_find? hheld

end Step

/-! ## Histories -/

section Run

variable {history : List (Command π)}

/-- The events that a history offered to reservoirs. -/
def offered (history : List (Command π)) (answers : List (Answer π)) : List (Event π) :=
  (history.zip answers).flatMap fun (command, answer) => command.offered answer

/-- Along a history events are neither lost nor doubled. -/
theorem Orderly.run_perm {pool : Pool π} (h : pool.Orderly)
    (hnew : ∀ command ∈ history, command.PlacesNew) :
    (retained pool.members ++ offered history (pool.run history).answer).Perm
      (retained (pool.run history).state.members ++
        ((pool.run history).answer.flatMap Answer.returned ++
          (pool.run history).discards.map Discard.value)) := by
  classical
  induction history generalizing pool with
  | nil => exact .refl _
  | cons command later ih =>
    have hfirst := hnew command List.mem_cons_self
    have hstep := (step_apply pool command).perm h hfirst
    have hlater := ih (h.apply hfirst) fun other hother =>
      hnew other (List.mem_cons_of_mem command hother)
    refine List.perm_iff_count.mpr fun event => ?_
    have hcount := hstep.count_eq event
    have hcount' := hlater.count_eq event
    simp only [Pool.run, offered, List.zip_cons_cons, List.flatMap_cons, List.map_append,
      List.count_append] at hcount hcount' ⊢
    omega

end Run

/-! ## Every history -/

/-- Of all events ever offered to the reservoirs of a pool, each is retained by one of them, has
been returned, was delivered to a hook, or was lost for want of one, and only one of these.  What
a command discards goes to the hook that one reservoir has at that moment, for a reason that
`Disposes` lists, and no command but those meant for it gives a reservoir another hook. -/
theorem whereabouts_of_run {history : List (Command π)}
    (hnew : ∀ command ∈ history, command.PlacesNew) :
    let ran := empty.run history
    let offers := offered history ran.answer
    let places := retained ran.state.members ++ (ran.answer.flatMap Answer.returned ++
      (delivered ran.discards ++ lost ran.discards))
    offers.Perm places ∧ (offers.Nodup → places.Nodup) ∧
    ∀ before command after, history = before ++ command :: after →
      let pool := (empty.run before).state
      let step := pool.apply command
      (∃ hook gone, Disposes pool command step.answer hook gone ∧
        (empty.run (before ++ [command])).discards =
          (empty.run before).discards ++ gone.map (⟨hook, ·⟩)) ∧
      ∀ name member member', command.rehooked? ≠ some name →
        pool.members.find? name = some member → step.state.members.find? name = some member' →
        member'.reservoir.heap.hook = member.reservoir.heap.hook := by
  intro ran offers places
  have hperm : offers.Perm places := by
    have hrun := orderly_empty.run_perm hnew
    have hsplit := delivered_append_lost_perm ran.discards
    exact hrun.trans ((hsplit.symm.append_left _).append_left _)
  refine ⟨hperm, fun hnodup => hperm.nodup hnodup, ?_⟩
  intro before command after hhistory pool step
  have hbefore : ∀ other ∈ before, other.PlacesNew := fun other hother =>
    hnew other (hhistory ▸ List.mem_append_left _ hother)
  have horderly : pool.Orderly := orderly_empty.run hbefore
  have hstep := step_apply pool command
  refine ⟨?_, ?_⟩
  · obtain ⟨hook, gone, hdisposes, hdiscards⟩ := hstep.disposes horderly
    refine ⟨hook, gone, hdisposes, ?_⟩
    rw [run_append]
    simp only [run, Transition.quiet, List.append_nil]
    exact congrArg _ hdiscards
  · intro name member member' hcommand hmember hmember'
    exact hstep.keepsHook horderly name member' hmember' member hcommand hmember

theorem whereabouts_of_run_merged :
    ∃ history : List (Command Unit), (∀ command ∈ history, command.PlacesNew) ∧
      let ran := empty.run history
      (ran.discards.map fun gone => (gone.hook, gone.value.timestamp)) =
        [(none, 3), (some "first", 1), (some "first", 4)] ∧
      (retained ran.state.members ++ (ran.answer.flatMap Answer.returned ++
        (delivered ran.discards ++ lost ran.discards))).Nodup := by
  let limited : Reservoir Unit := .fresh Config.usualName ⟨#[], 2, .atMost 2, none⟩
  have hlimited : Reservoir.ofCapacity .ample 2 = .ok limited := rfl
  let event (timestamp : UInt64) : Event Unit := ⟨.zero, timestamp, ()⟩
  let history : List (Command Unit) :=
    [.placeLocal "target" (limited.setHook "first"), .placeShared "donor" limited,
      .add "target" (event 1), .add "target" (event 4), .add "donor" (event 3),
      .add "donor" (event 5), .add "donor" (event 6), .pop "donor" .low, .setHook "donor" "second",
      .merge "target" "donor", .harvest "missing", .pop "target" .high, .drop "target"]
  have hnew : ∀ command ∈ history, command.PlacesNew := by
    simp only [history, List.forall_mem_cons, Command.PlacesNew]
    exact ⟨.hooked (.ofCapacity hlimited) _, .ofCapacity hlimited, trivial, trivial, trivial,
      trivial, trivial, trivial, trivial, trivial, trivial, trivial, trivial,
      List.forall_mem_nil _⟩
  obtain ⟨-, hnodup, -⟩ := whereabouts_of_run hnew
  exact ⟨history, hnew, by decide +kernel, hnodup (by decide +kernel)⟩

end Pool

end PrioritySampling
