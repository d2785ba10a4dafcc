import PrioritySampling.Proofs.Reading
import PrioritySampling.Proofs.Sharing
import PrioritySampling.Proofs.Whereabouts
/-!
# Replaying a reservoir

The text of a reservoir tells its events in storage order and nothing else, and a reader offers
them to a new reservoir one after another.  If that has room for all, each of them stays in the
slot that it comes to: the events read so far are the first of an array in min-max order, and so
they are in that order themselves, in which no value climbs.  If it has no room for all, it holds
the greatest of them in the end.

All of this takes storage, and the reader gives up when it is refused any.  That it is not is asked
of the memory beforehand, as `Memory.Serves`.
-/

namespace PrioritySampling

namespace MinMaxHeap

variable {α : Type} {cmp : Comparator α}

/-! ## Values that stay where they are -/

/-- The first values of an array in order are in order. -/
theorem InOrder.of_get_castLE {m n : Nat} {longer : Vector α m} {items : Vector α n}
    (h : InOrder cmp longer) (hle : n ≤ m)
    (hget : ∀ place : Place n, items.get place.slot = longer.get (place.castLE hle).slot) :
    InOrder cmp items := by
  intro upper lower hbelow
  rw [Leads, hget, hget]
  exact h (upper.castLE hle) (lower.castLE hle) hbelow

/-- The values of a list are in min-max order. -/
def Arranged (cmp : Comparator α) (values : List α) : Prop :=
  InOrder cmp values.toArray.toVector

theorem Arranged.of_append {values later : List α} (h : Arranged cmp (values ++ later)) :
    Arranged cmp values := by
  have hle : values.length ≤ (values ++ later).length := by
    rw [List.length_append]
    exact Nat.le_add_right _ _
  refine InOrder.of_get_castLE h hle fun place => ?_
  exact (List.getElem_append_left place.slot.isLt).symm

section Heap

variable {heap : MinMaxHeap α cmp} {value : α} {memory : Memory}
  {step : Transition (MinMaxHeap α cmp) α (Except Error Insertion)} {outcome : Insertion}

theorem Ordered.arranged (h : heap.Ordered) : Arranged cmp heap.toList :=
  h

variable [Std.OrientedCmp cmp]

/-- A value that is in order at the last slot stays there. -/
theorem toList_push_of_arranged (h : Arranged cmp (heap.toList ++ [value])) :
    (heap.push value).toList = heap.toList ++ [value] := by
  have hpush : (heap.items.push value).toList = heap.toList ++ [value] := Array.toList_push
  rw [← hpush] at h ⊢
  have hitems : InOrder cmp (heap.items.toVector.push value) := inOrder_toArray.mp h
  rw [push]
  simp only [toList, siftUp_eq_self hitems]
  rfl

theorem Offer.toList_of_arranged (hoffer : Offer memory value heap step)
    (hfull : heap.isFull = false) (hanswer : step.answer = .ok outcome)
    (h : Arranged cmp (heap.toList ++ [value])) : step.state.toList = heap.toList ++ [value] := by
  cases hoffer with
  | inserted hnot hroom => exact toList_push_of_arranged h
  | refused hlimit hsize hreserves => cases hanswer
  | rejected hfull' hleast hvalue =>
    rw [hfull] at hfull'
    cases hfull'
  | replaced hfull' hpop hvalue =>
    rw [hfull] at hfull'
    cases hfull'

end Heap

end MinMaxHeap

namespace Limit

variable {capacity count : Nat}

/-! ## Limits from capacities -/

theorem ofNat_of_two_le (h : 2 ≤ capacity) : ofNat capacity = .ok (.atMost capacity) := by
  match capacity, h with
  | _ + 2, _ => rfl

theorem eq_of_ofNat_eq_atMost (h : ofNat capacity = .ok (.atMost count)) :
    count = capacity ∧ 2 ≤ count := by
  match capacity, h with
  | capacity + 2, h =>
    cases h
    exact ⟨rfl, Nat.le_add_left 2 capacity⟩

/-- A valid capacity describes a limit whose storage can be asked for. -/
theorem exists_initialSlots (h : capacity ≠ 1) :
    ∃ limit, ofNat capacity = .ok limit ∧
      MinMaxHeap.initialSlots limit =
        .ok (if capacity = 0 then MinMaxHeap.chunk else capacity) := by
  match capacity with
  | 0 => exact ⟨.unbounded, rfl, rfl⟩
  | 1 => exact absurd rfl h
  | count + 2 =>
    refine ⟨.atMost (count + 2), rfl, ?_⟩
    rw [MinMaxHeap.initialSlots, if_neg (by omega), if_neg (by omega)]

end Limit

namespace Reservoir

open Json (Payload Value)
open MinMaxHeap (Arranged)

variable {π : Type} {reservoir filled : Reservoir π} {memory : Memory} {events : List (Event π)}
  {capacity : Nat}

/-! ## Every reservoir is in order -/

theorem ordered_add (hsound : reservoir.heap.Sound) (h : reservoir.heap.Ordered)
    (memory : Memory) (event : Event π) : (reservoir.add memory event).state.heap.Ordered := by
  rw [heap_add]
  exact h.offer (MinMaxHeap.offer_insert hsound memory event)

theorem ordered_absorb (hsound : reservoir.heap.Sound) (h : reservoir.heap.Ordered)
    (memory : Memory) (events : List (Event π)) :
    (reservoir.absorb memory events).state.heap.Ordered := by
  induction events generalizing reservoir with
  | nil => exact h
  | cons event later ih =>
    have hoffer := MinMaxHeap.offer_insert hsound memory event
    have hheap := heap_offer memory event reservoir
    have hordered : (reservoir.offer memory event).state.heap.Ordered := by
      rw [hheap]
      exact h.offer hoffer
    rw [absorb]
    split
    · exact ih (sound_offer hsound memory event) hordered
    · exact hordered

theorem ordered_merge (hsound : reservoir.heap.Sound) (h : reservoir.heap.Ordered)
    (memory : Memory) (other : Reservoir π) :
    (reservoir.merge memory other).state.heap.Ordered := by
  have hcounted : (reservoir.addCounts other).heap.Sound := hsound
  exact ordered_absorb hcounted h memory other.events

theorem ordered_pop {side : Side} {event : Event π} {rest : Reservoir π}
    (h : reservoir.heap.Ordered) (hpop : reservoir.pop side = some (event, rest)) :
    rest.heap.Ordered := by
  simp only [Reservoir.pop, Option.map_eq_some_iff] at hpop
  obtain ⟨⟨_, heap⟩, hpop, ⟨⟩⟩ := hpop
  exact h.pop hpop

/-! ## Filling in storage order -/

/-- Events in storage order are stored as they come, as long as there is room. -/
theorem events_fill (hsound : reservoir.heap.Sound)
    (harranged : Arranged Event.rank (reservoir.events ++ events))
    (hroom : ∀ count, reservoir.heap.limit = .atMost count →
      reservoir.heap.size + events.length ≤ count)
    (hfill : reservoir.fill memory events = .ok filled) :
    filled.events = reservoir.events ++ events := by
  induction events generalizing reservoir with
  | nil =>
    cases hfill
    exact (List.append_nil _).symm
  | cons event later ih =>
    have hoffer := MinMaxHeap.offer_insert hsound memory event
    have hheap := heap_add memory event reservoir
    have hfull : reservoir.heap.isFull = false := by
      rw [MinMaxHeap.isFull]
      cases hlimit : reservoir.heap.limit with
      | unbounded => rfl
      | atMost count =>
        have hcount := hroom count hlimit
        rw [List.length_cons] at hcount
        exact decide_eq_false (by omega)
    rw [← List.singleton_append, ← List.append_assoc] at harranged
    rw [fill, answer_add] at hfill
    cases hanswer : (reservoir.heap.insert memory event).answer with
    | error failure =>
      simp only [hanswer, Except.map] at hfill
      cases hfill
    | ok outcome =>
      simp only [hanswer, Except.map] at hfill
      -- The events so far and the new one come first in the whole list, so they are in order.
      have hevents : (reservoir.add memory event).state.events = reservoir.events ++ [event] := by
        rw [Reservoir.events, hheap]
        exact hoffer.toList_of_arranged hfull hanswer harranged.of_append
      have hsize : (reservoir.add memory event).state.heap.size = reservoir.heap.size + 1 := by
        have hlength := congrArg List.length hevents
        rwa [List.length_append, List.length_singleton] at hlength
      rw [← hevents] at harranged
      rw [← List.singleton_append, ← List.append_assoc, ← hevents]
      refine ih (sound_add hsound memory event) harranged (fun count hcount => ?_) hfill
      rw [hheap, hoffer.unchanged.1] at hcount
      have hle := hroom count hcount
      rw [List.length_cons] at hle
      omega

/-- A valid capacity makes a reservoir if there is storage for it. -/
theorem exists_ofCapacity {count : Nat} (hcapacity : capacity ≠ 1)
    (hserves : memory.Serves capacity count) :
    ∃ start : Reservoir π, ofCapacity memory capacity = .ok start ∧
      Limit.ofNat capacity = .ok start.heap.limit := by
  obtain ⟨limit, hlimit, hslots⟩ := Limit.exists_initialSlots hcapacity
  have hreserves := hserves.initial
  generalize (if capacity = 0 then MinMaxHeap.chunk else capacity) = slots at hslots hreserves
  have hheap : MinMaxHeap.withLimit (Event.rank (π := π)) memory limit =
      .ok ⟨#[], slots, limit, none⟩ := by
    rw [MinMaxHeap.withLimit, hslots]
    exact if_pos hreserves
  refine ⟨fresh Config.usualName ⟨#[], slots, limit, none⟩, ?_, hlimit⟩
  rw [ofCapacity, hlimit]
  show withLimit memory limit Config.usualName = _
  rw [withLimit, hheap]
  rfl

/-! ## Reading the text of a reservoir -/

variable [Payload π]

/-- The events in the text of a reservoir are offered to a new one. -/
theorem ofText_toText (hread : ∀ event ∈ reservoir.events, Event.ofJson? event.toJson = some event)
    (memory : Memory) (capacity : Nat) :
    ofText memory reservoir.toText capacity =
      (ofCapacity memory capacity).bind (fill memory reservoir.events) := by
  have htext : (Json.parse reservoir.toText).bind (Value.toList? Event.ofJson?) =
      some reservoir.events := by
    rw [toText, Value.parse_render]
    exact Value.toList?_array hread
  rw [ofText, htext]
  rfl

/-- What comes of reading the text of a reservoir into a new one of some capacity. -/
structure Replays (reservoir : Reservoir π) (capacity : Nat) (restored : Reservoir π) : Prop where
  seen_eq : restored.seen.toNat = reservoir.events.length
  /-- With room for all events it is the same again, in the same order. -/
  whole : capacity = 0 ∨ max reservoir.events.length 2 ≤ capacity →
    restored.events = reservoir.events ∧ restored.toText = reservoir.toText ∧
      restored.saved.toNat = reservoir.events.length ∧ restored.rejected = 0 ∧
      restored.evicted = 0 ∧ restored.dropped = 0
  /-- With room for fewer of them it holds the greatest. -/
  selection : 2 ≤ capacity → capacity < reservoir.events.length →
    restored.saved.toNat = capacity ∧
      restored.rejected.toNat + restored.evicted.toNat = reservoir.events.length - capacity ∧
      ∃ gone, reservoir.events.Perm (restored.events ++ gone) ∧
        ∀ a ∈ gone, ∀ b ∈ restored.events, Comparator.greater Event.rank a b = false

theorem replays_of_fill {start restored : Reservoir π} (hsound : reservoir.heap.Sound)
    (hordered : reservoir.heap.Ordered) (hstart : start.Made)
    (hlimit : Limit.ofNat capacity = .ok start.heap.limit)
    (hfill : start.fill memory reservoir.events = .ok restored) :
    reservoir.Replays capacity restored := by
  have hempty : start.events = [] := hstart.events_eq_nil
  obtain ⟨hshare, hsame⟩ := (hstart.sharing (Limit.le_refl start.heap.limit)).fill hfill
  rw [List.nil_append, ← hsame] at hshare
  obtain ⟨rejected, evicted, haccounts⟩ := hshare.accounts
  have hlt : reservoir.events.length < UInt64.size := by
    have hceiling : Memory.ceiling < UInt64.size := by decide
    exact Nat.lt_trans (Nat.lt_of_le_of_lt hsound.size_le hsound.capacity_lt) hceiling
  have hexact := haccounts.exact hlt
  have hbalance : restored.seen.toNat = restored.saved.toNat + restored.rejected.toNat +
      restored.evicted.toNat + 0 + 0 := hexact.balance
  obtain ⟨hsize, gone, hperm, houtranked⟩ := hshare.selects
  rw [hsame] at hsize
  have hseen : restored.seen.toNat = reservoir.events.length := hexact.seen_eq
  have hsaved : restored.saved.toNat = restored.heap.size := hexact.saved_eq
  refine ⟨hseen, fun hroom => ?_, fun htwo hless => ?_⟩
  · -- Nothing was rejected or evicted, since all that was seen is still there.
    have hevents : restored.events = reservoir.events := by
      have harranged : Arranged Event.rank (start.events ++ reservoir.events) := by
        rw [hempty]
        exact hordered.arranged
      have hfilled := events_fill hstart.accounts.sound harranged (fun count hcount => ?_) hfill
      · rwa [hempty, List.nil_append] at hfilled
      · rw [hcount] at hlimit
        obtain ⟨rfl, hvalid⟩ := Limit.eq_of_ofNat_eq_atMost hlimit
        have hnone : start.heap.size = 0 := congrArg List.length hempty
        omega
    have hcount : restored.heap.size = reservoir.events.length := congrArg List.length hevents
    have hrejected : restored.rejected.toNat = 0 := by omega
    have hevicted : restored.evicted.toNat = 0 := by omega
    have hsame : restored.saved = restored.seen := UInt64.toNat_inj.mp (by omega)
    refine ⟨hevents, ?_, hsaved.trans hcount, UInt64.toNat_inj.mp hrejected,
      UInt64.toNat_inj.mp hevicted, ?_⟩
    · rw [toText, toText, hevents]
    · rw [hexact.dropped_eq, hsame, UInt64.sub_self]
  · have hcount : restored.heap.size = capacity := by
      rw [Limit.ofNat_of_two_le htwo, Except.ok.injEq] at hlimit
      rw [hsize, ← hlimit]
      exact Nat.min_eq_right (Nat.le_of_lt hless)
    exact ⟨hsaved.trans hcount, by omega, gone, hperm, houtranked⟩

/-- A reservoir whose events are read back can be restored from its text if there is storage for
them. -/
theorem replays_of_ordered (hsound : reservoir.heap.Sound) (hordered : reservoir.heap.Ordered)
    (hread : ∀ event ∈ reservoir.events, Event.ofJson? event.toJson = some event)
    (hcapacity : capacity ≠ 1) (hserves : memory.Serves capacity reservoir.events.length) :
    ∃ restored, ofText memory reservoir.toText capacity = .ok restored ∧
      reservoir.Replays capacity restored := by
  obtain ⟨start, hmake, hlimit⟩ := exists_ofCapacity (π := π) hcapacity hserves
  have hstart : start.Made := .ofCapacity hmake
  rw [← Limit.toNat_of_ofNat hlimit] at hserves
  obtain ⟨restored, hfill⟩ := hstart.exists_fill hserves
  refine ⟨restored, ?_, replays_of_fill hsound hordered hstart hlimit hfill⟩
  rw [ofText_toText hread, hmake]
  exact hfill

end Reservoir

namespace Pool

open Json (Payload Value)

variable {π : Type}

/-- The heaps of all reservoirs are in order. -/
def AllOrdered (members : Directory (Member π)) : Prop :=
  ∀ name member, members.find? name = some member → member.reservoir.heap.Ordered

theorem allOrdered_empty : AllOrdered (empty : Pool π).members :=
  fun _ _ hmember => absurd hmember nofun

section AllOrdered

variable {members : Directory (Member π)} {name : String} {member : Member π}

theorem AllOrdered.put (h : AllOrdered members) (name : String)
    (hmember : member.reservoir.heap.Ordered) : AllOrdered (members.put name member) :=
  Directory.forall_find?_put hmember fun other held _ hheld => h other held hheld

theorem AllOrdered.erase (h : AllOrdered members) (name : String) :
    AllOrdered (members.erase name) :=
  Directory.forall_find?_erase fun other held _ hheld => h other held hheld

/-- A command leaves all heaps in order. -/
theorem Step.allOrdered {pool : Pool π} {command : Command π} {effect : Effect π}
    (hstep : Step pool command effect) (horderly : pool.Orderly) (h : AllOrdered pool.members)
    (hnew : command.PlacesNew) : AllOrdered effect.state.members := by
  cases hstep with
  | missing | popMissed | opened | copied | handed | recorded => exact h
  | placedLocal | placedShared =>
    exact h.put _ (MinMaxHeap.ordered_of_toList_eq_nil (Reservoir.Made.events_eq_nil hnew))
  | added hmember hstep =>
    subst hstep
    simp only [members_recordFor]
    exact h.put _ (Reservoir.ordered_add (horderly.sound _ _ hmember) (h _ _ hmember) _ _)
  | @merged name donor member other step hne hmember hother hstep =>
    subst hstep
    have hsound := horderly.sound name member hmember
    simp only [members_recordFor]
    exact (h.erase donor).put name (Reservoir.ordered_merge hsound (h name member hmember) _ _)
  | popped hmember hpop => exact h.put _ (Reservoir.ordered_pop (h _ _ hmember) hpop)
  | @harvested name member hmember =>
    have hempty := (Reservoir.perm_harvest member.reservoir).2
    simp only [Transition.quiet, members_recordFor]
    exact h.put name (MinMaxHeap.ordered_of_toList_eq_nil hempty)
  | hooked hmember | supplied hmember | unshared hmember =>
    have hordered := h _ _ hmember
    exact h.put _ hordered
  | shared hmember hcollector =>
    have hordered := h _ _ hmember
    simp only [Transition.quiet, update, members_of_collectorFor hcollector]
    exact h.put _ hordered
  | dropped hmember => exact h.erase _

theorem AllOrdered.run {pool : Pool π} {history : List (Command π)} (h : AllOrdered pool.members)
    (horderly : pool.Orderly) (hnew : ∀ command ∈ history, command.PlacesNew) :
    AllOrdered (pool.run history).state.members :=
  horderly.run_induction Step.allOrdered h hnew

end AllOrdered

/-- The text of any reservoir of a pool can be replayed, if its events have finite priorities and
are read back as they are, into a new reservoir of any valid capacity, if that is not refused the
storage it asks for.  With room for all events it becomes the same again, down to the order in
which it stores them, and with room for fewer it comes to hold the greatest. -/
theorem replay_of_run [Payload π] {history : List (Command π)} {name : String}
    {reservoir : Reservoir π} (hnew : ∀ command ∈ history, command.PlacesNew)
    (hreached : (empty.run history).state.reservoir? name = some reservoir)
    (hfinite : ∀ event ∈ reservoir.events, event.priority.isFinite = true)
    (hread : ∀ event ∈ reservoir.events, event.priority.isFinite = true →
      (Value.number (.ofBinary64 event.priority)).toBinary64? = some event.priority ∧
        Payload.decode? (Payload.encode event.payload) = some event.payload)
    {memory : Memory} {capacity : Nat} (hcapacity : capacity ≠ 1)
    (hserves : memory.Serves capacity reservoir.events.length) :
    ∃ restored, Reservoir.ofText memory reservoir.toText capacity = .ok restored ∧
      reservoir.Replays capacity restored := by
  have horderly : (empty.run history).state.Orderly := orderly_empty.run hnew
  have hordered := allOrdered_empty.run orderly_empty hnew
  rw [reservoir?, Option.map_eq_some_iff] at hreached
  obtain ⟨member, hmember, rfl⟩ := hreached
  refine Reservoir.replays_of_ordered (horderly.sound name member hmember)
    (hordered name member hmember) (fun event hevent => ?_) hcapacity hserves
  obtain ⟨hpriority, hpayload⟩ := hread event hevent (hfinite event hevent)
  exact Event.ofJson?_toJson (hfinite event hevent) hpriority hpayload

theorem replay_of_run_merged :
    ∃ (history : List (Command String)) (reservoir smaller same : Reservoir String),
      (empty.run history).state.reservoir? "target" = some reservoir ∧
      reservoir.events.map Event.timestamp = [2, 1, 3] ∧
      Reservoir.ofText .ample reservoir.toText 2 = .ok smaller ∧
      smaller.saved.toNat = 2 ∧ smaller.rejected.toNat + smaller.evicted.toNat = 1 ∧
      Reservoir.ofText .ample reservoir.toText 0 = .ok same ∧ same.events = reservoir.events := by
  let one : Binary64 := ⟨0x3ff0000000000000⟩
  let two : Binary64 := ⟨0x4000000000000000⟩
  let history : List (Command String) :=
    [.placeLocal "target" .unlimited, .placeShared "donor" .unlimited,
      .add "target" ⟨two, 1, "b"⟩, .add "donor" ⟨one, 2, "a"⟩, .add "donor" ⟨one, 3, "\""⟩,
      .add "target" ⟨two, 4, "c"⟩, .pop "target" .high, .merge "target" "donor"]
  have hnew : ∀ command ∈ history, command.PlacesNew := by
    simp only [history, List.forall_mem_cons, Command.PlacesNew]
    exact ⟨.unlimited, .unlimited, trivial, trivial, trivial, trivial, trivial, trivial,
      List.forall_mem_nil _⟩
  have hfound : ((empty.run history).state.reservoir? "target").map Reservoir.events =
      some [⟨one, 2, "a"⟩, ⟨two, 1, "b"⟩, ⟨one, 3, "\""⟩] := by
    decide +kernel
  obtain ⟨reservoir, hreservoir, hevents⟩ := Option.map_eq_some_iff.mp hfound
  have hlength : reservoir.events.length = 3 := congrArg List.length hevents
  have hfinite : ∀ event ∈ reservoir.events, event.priority.isFinite = true := by
    rw [hevents]
    decide
  have hread : ∀ event ∈ reservoir.events, event.priority.isFinite = true →
      (Value.number (.ofBinary64 event.priority)).toBinary64? = some event.priority ∧
        Payload.decode? (Payload.encode event.payload) = some event.payload := by
    rw [hevents]
    decide +kernel
  have hserves (capacity : Nat) (h : capacity < Memory.ceiling) :
      Memory.ample.Serves capacity reservoir.events.length := by
    rw [hlength]
    exact Memory.serves_ample h (by decide)
  obtain ⟨smaller, hsmaller, hless⟩ :=
    replay_of_run hnew hreservoir hfinite hread (by decide) (hserves 2 (by decide))
  obtain ⟨same, hsame, hwhole⟩ :=
    replay_of_run hnew hreservoir hfinite hread (by decide) (hserves 0 (by decide))
  obtain ⟨hsaved, hgone, -⟩ := hless.selection (Nat.le_refl 2) (by omega)
  obtain ⟨hsameEvents, -⟩ := hwhole.whole (.inl rfl)
  rw [hlength] at hgone
  exact ⟨history, reservoir, smaller, same, hreservoir, by rw [hevents]; rfl, hsmaller, hsaved,
    hgone, hsame, hsameEvents⟩

end Pool

end PrioritySampling
