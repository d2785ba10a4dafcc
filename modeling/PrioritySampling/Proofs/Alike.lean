import PrioritySampling.Pool.Command
import PrioritySampling.Proofs.Ledger
/-!
# Pools that are alike

Reserved storage is seen by nobody as long as every request for more is met.  `Alike` relates two
heaps, reservoirs or pools that differ in it alone.  Every operation takes those that are alike to
such as are alike, with the same answer and the same discards, provided that it fails on neither
side.  So pools that are alike cannot be told apart by any history in which no call fails.
-/

namespace PrioritySampling

namespace Transition

variable {σ α ρ : Type}

/-- Two operations with the same answer and the same discards lead to related states. -/
structure Agree (R : σ → σ → Prop) (one other : Transition σ α ρ) : Prop where
  answer_eq : one.answer = other.answer
  discards_eq : one.discards = other.discards
  state : R one.state other.state

theorem Agree.after {R : σ → σ → Prop} {one other : Transition σ α ρ} (h : one.Agree R other)
    {earlier earlier' : List (Discard α)} (hearlier : earlier = earlier') :
    (one.after earlier).Agree R (other.after earlier') :=
  ⟨h.answer_eq, congrArg₂ (· ++ ·) hearlier h.discards_eq, h.state⟩

end Transition

namespace MinMaxHeap

variable {α : Type} {cmp : Comparator α} {memory : Memory} {value : α}

/-! ## Heaps in storage of different sizes -/

/-- The heaps differ in reserved storage alone. -/
def Alike (one other : MinMaxHeap α cmp) : Prop :=
  ∃ slots, other = one.withCapacity slots

theorem pop_withCapacity (side : Side) (slots : Nat) (heap : MinMaxHeap α cmp) :
    (heap.withCapacity slots).pop side =
      (heap.pop side).map fun (value, rest) => (value, rest.withCapacity slots) := by
  rw [pop, pop, Option.map_map]
  rfl

/-- Room is made by reserving storage and by nothing else. -/
theorem alike_of_makeRoom {heap roomy : MinMaxHeap α cmp}
    (h : heap.makeRoom memory = .ok roomy) : heap.Alike roomy := by
  rw [makeRoom] at h
  split at h
  · rw [grow] at h
    split at h
    · cases h
      exact ⟨_, rfl⟩
    · cases h
  · cases h
    exact ⟨heap.capacity, rfl⟩

theorem exists_of_store {heap : MinMaxHeap α cmp} {outcome : Insertion}
    (h : (heap.store memory outcome value).answer.isOk = true) :
    ∃ slots, heap.store memory outcome value =
      ⟨.ok outcome, (heap.push value).withCapacity slots, []⟩ := by
  rw [store] at h ⊢
  cases hroom : heap.makeRoom memory with
  | error failure =>
    rw [hroom] at h
    cases h
  | ok roomy =>
    obtain ⟨slots, rfl⟩ := alike_of_makeRoom hroom
    exact ⟨slots, rfl⟩

section Alike

variable {one other : MinMaxHeap α cmp}

/-- If both heaps find storage for a value, they store it alike. -/
theorem Alike.store {outcome : Insertion} (h : one.Alike other)
    (hone : (one.store memory outcome value).answer.isOk = true)
    (hother : (other.store memory outcome value).answer.isOk = true) :
    (one.store memory outcome value).Agree Alike (other.store memory outcome value) := by
  obtain ⟨slots, rfl⟩ := h
  obtain ⟨first, hfirst⟩ := exists_of_store hone
  obtain ⟨second, hsecond⟩ := exists_of_store hother
  rw [hfirst, hsecond]
  exact ⟨rfl, rfl, second, rfl⟩

theorem Alike.insert (h : one.Alike other) (hone : (one.insert memory value).answer.isOk = true)
    (hother : (other.insert memory value).answer.isOk = true) :
    (one.insert memory value).Agree Alike (other.insert memory value) := by
  obtain ⟨slots, rfl⟩ := h
  have hfull : (one.withCapacity slots).isFull = one.isFull := rfl
  have hadmits : (one.withCapacity slots).admits value = one.admits value := rfl
  rw [MinMaxHeap.insert] at hone hother ⊢
  rw [MinMaxHeap.insert]
  rw [hfull, hadmits, pop_withCapacity] at hother ⊢
  by_cases hroom : one.isFull = true
  · rw [if_pos hroom] at hone hother ⊢
    rw [if_pos hroom]
    by_cases hvalue : one.admits value = true
    · rw [if_pos hvalue] at hone hother ⊢
      rw [if_pos hvalue]
      cases hpop : one.pop .low with
      | none =>
        rw [hpop] at hone hother
        exact Alike.store ⟨slots, rfl⟩ hone hother
      | some pair =>
        rw [hpop] at hone hother
        have hrest : pair.2.Alike (pair.2.withCapacity slots) := ⟨slots, rfl⟩
        exact (hrest.store hone hother).after rfl
    · rw [if_neg hvalue, if_neg hvalue]
      exact ⟨rfl, rfl, slots, rfl⟩
  · rw [if_neg hroom] at hone hother ⊢
    rw [if_neg hroom]
    exact Alike.store ⟨slots, rfl⟩ hone hother

end Alike

section Drain

variable {heap rest : MinMaxHeap α cmp} {side : Side}

theorem drain_of_pop_eq_none (h : heap.pop side = none) : heap.drain side = ([], heap) := by
  rw [drain]
  split
  · rfl
  · rename_i hsome
    rw [h] at hsome
    cases hsome

theorem drain_of_pop (h : heap.pop side = some (value, rest)) :
    heap.drain side = (value :: (rest.drain side).1, (rest.drain side).2) := by
  rw [drain]
  split
  · rename_i hnone
    rw [h] at hnone
    cases hnone
  · rename_i hsome
    rw [h] at hsome
    cases hsome
    rfl

/-- The order in which a heap is drained does not depend on its storage. -/
theorem values_drain_withCapacity (side : Side) (slots : Nat) (heap : MinMaxHeap α cmp) :
    ((heap.withCapacity slots).drain side).1 = (heap.drain side).1 := by
  fun_induction drain side heap with
  | case1 heap hnone =>
    rw [drain_of_pop_eq_none]
    rw [pop_withCapacity, hnone]
    rfl
  | case2 heap value rest hsome hlt values last hdrain ih =>
    rw [hdrain] at ih
    have hpop : (heap.withCapacity slots).pop side = some (value, rest.withCapacity slots) := by
      rw [pop_withCapacity, hsome]
      rfl
    rw [drain_of_pop hpop, ih]

end Drain

end MinMaxHeap

namespace Reservoir

variable {π : Type} {one other : Reservoir π} {memory : Memory}

/-! ## Reservoirs in storage of different sizes -/

/-- The same reservoir in storage of another size. -/
def withSlots (slots : Nat) (reservoir : Reservoir π) : Reservoir π :=
  { reservoir with heap := reservoir.heap.withCapacity slots }

/-- The reservoirs differ in reserved storage alone. -/
def Alike (one other : Reservoir π) : Prop :=
  ∃ slots, other = one.withSlots slots

theorem Alike.offer {event : Event π} (h : one.Alike other)
    (hone : (one.offer memory event).answer.isOk = true)
    (hother : (other.offer memory event).answer.isOk = true) :
    (one.offer memory event).Agree Alike (other.offer memory event) := by
  obtain ⟨slots, rfl⟩ := h
  rw [answer_offer] at hone hother
  have hheap : one.heap.Alike (one.withSlots slots).heap := ⟨slots, rfl⟩
  obtain ⟨hanswer, hdiscards, slots', hstate⟩ := hheap.insert hone hother
  rw [Reservoir.offer, Reservoir.offer, ← hanswer]
  cases houtcome : (one.heap.insert memory event).answer with
  | error failure =>
    rw [houtcome] at hone
    cases hone
  | ok outcome =>
    refine ⟨rfl, hdiscards, slots', ?_⟩
    rw [hstate]
    cases outcome with
    | inserted | replaced | rejected => rfl

theorem isOk_answer_add (memory : Memory) (event : Event π) (reservoir : Reservoir π) :
    (reservoir.add memory event).answer.isOk =
      (reservoir.heap.insert memory event).answer.isOk := by
  rw [answer_add]
  cases (reservoir.heap.insert memory event).answer with
  | ok outcome => rfl
  | error failure => rfl

theorem Alike.add {event : Event π} (h : one.Alike other)
    (hone : (one.add memory event).answer.isOk = true)
    (hother : (other.add memory event).answer.isOk = true) :
    (one.add memory event).Agree Alike (other.add memory event) := by
  obtain ⟨slots, rfl⟩ := h
  have hseen : Alike { one with seen := one.seen + 1 }
      { one.withSlots slots with seen := one.seen + 1 } := ⟨slots, rfl⟩
  rw [isOk_answer_add] at hone hother
  have hoffer := hseen.offer ((congrArg _ (answer_offer memory event _)).trans hone)
    ((congrArg _ (answer_offer memory event _)).trans hother)
  exact ⟨congrArg (Except.map Insertion.displaced) hoffer.answer_eq, hoffer.discards_eq,
    hoffer.state⟩

/-- Events that find storage in both reservoirs come to the same in both. -/
theorem Alike.absorb {events : List (Event π)} (h : one.Alike other)
    (hone : (one.absorb memory events).answer.isOk = true)
    (hother : (other.absorb memory events).answer.isOk = true) :
    (one.absorb memory events).Agree Alike (other.absorb memory events) := by
  induction events generalizing one other with
  | nil => exact ⟨rfl, rfl, h⟩
  | cons event later ih =>
    rw [Reservoir.absorb] at hone hother ⊢
    rw [Reservoir.absorb]
    cases hfirst : (one.offer memory event).answer with
    | error failure =>
      rw [hfirst] at hone
      cases hone
    | ok outcome =>
      cases hsecond : (other.offer memory event).answer with
      | error failure =>
        rw [hsecond] at hother
        cases hother
      | ok outcome' =>
        rw [hfirst] at hone
        rw [hsecond] at hother
        have hoffer := h.offer (by rw [hfirst]; rfl) (by rw [hsecond]; rfl)
        exact (ih hoffer.state hone hother).after hoffer.discards_eq

theorem Alike.merge {donor donor' : Reservoir π} (h : one.Alike other) (hdonor : donor.Alike donor')
    (hone : (one.merge memory donor).answer.isOk = true)
    (hother : (other.merge memory donor').answer.isOk = true) :
    (one.merge memory donor).Agree Alike (other.merge memory donor') := by
  obtain ⟨slots, rfl⟩ := h
  obtain ⟨slots', rfl⟩ := hdonor
  have hcounts : (one.addCounts donor).Alike ((one.withSlots slots).addCounts donor) :=
    ⟨slots, rfl⟩
  exact hcounts.absorb hone hother

theorem pop_withSlots (side : Side) (slots : Nat) (reservoir : Reservoir π) :
    (reservoir.withSlots slots).pop side =
      (reservoir.pop side).map fun (event, rest) => (event, rest.withSlots slots) := by
  have hheap : (reservoir.withSlots slots).heap = reservoir.heap.withCapacity slots := rfl
  rw [pop, pop, hheap, MinMaxHeap.pop_withCapacity, Option.map_map, Option.map_map]
  rfl

theorem harvest_withSlots (slots : Nat) (reservoir : Reservoir π) :
    (reservoir.withSlots slots).harvest =
      (reservoir.harvest.1, reservoir.harvest.2.withSlots slots) := by
  have hheap : (reservoir.withSlots slots).heap = reservoir.heap.withCapacity slots := rfl
  have hevents := MinMaxHeap.values_drain_withCapacity .high slots reservoir.heap
  have hrest := (MinMaxHeap.drain_spec .high reservoir.heap).2
  have hrest' := (MinMaxHeap.drain_spec .high (reservoir.heap.withCapacity slots)).2
  simp only [harvest, hheap, hevents, hrest, hrest']
  rfl

end Reservoir

/-! ## Pools in storage of different sizes -/

/-- The same member with its reservoir in storage of another size. -/
def Member.withSlots {π : Type} (slots : Nat) (member : Member π) : Member π :=
  { member with reservoir := member.reservoir.withSlots slots }

namespace Pool

variable {π : Type}

/-- The members differ in the storage of their reservoirs alone. -/
def AlikeMembers (one other : Directory (Member π)) : Prop :=
  ∀ name, ∃ slots, other.find? name = (one.find? name).map (Member.withSlots slots)

/-- The pools differ in the storage of their reservoirs alone. -/
structure Alike (one other : Pool π) : Prop where
  members : AlikeMembers one.members other.members
  collectors_eq : one.collectors = other.collectors
  handles_eq : one.handles = other.handles

/-- The call did not fail, which it does only for lack of storage. -/
def Answer.succeeded : Answer π → Bool
  | .added outcome => outcome.isOk
  | .merged outcome => outcome.isOk
  | _ => true

section Alike

variable {members members' : Directory (Member π)} {one other : Pool π}

theorem AlikeMembers.put (h : AlikeMembers members members') (name : String) (member : Member π)
    (slots : Nat) :
    AlikeMembers (members.put name member) (members'.put name (member.withSlots slots)) := by
  intro third
  by_cases hthird : third = name
  · rw [hthird, Directory.find?_put_self, Directory.find?_put_self]
    exact ⟨slots, rfl⟩
  · rw [Directory.find?_put_of_ne hthird, Directory.find?_put_of_ne hthird]
    exact h third

theorem AlikeMembers.erase (h : AlikeMembers members members') (name : String) :
    AlikeMembers (members.erase name) (members'.erase name) := by
  intro third
  by_cases hthird : third = name
  · rw [hthird, Directory.find?_erase_self, Directory.find?_erase_self]
    exact ⟨0, rfl⟩
  · rw [Directory.find?_erase_of_ne hthird, Directory.find?_erase_of_ne hthird]
    exact h third

theorem Alike.withMembers (h : one.Alike other) (hmembers : AlikeMembers members members') :
    Alike { one with members := members } { other with members := members' } :=
  ⟨hmembers, h.collectors_eq, h.handles_eq⟩

theorem Alike.record (h : one.Alike other) (collector : Nat) (change : Totals → Totals) :
    (one.record collector change).Alike (other.record collector change) :=
  ⟨h.members, congrArg (List.modify · collector change) h.collectors_eq, h.handles_eq⟩

theorem Alike.recordFor (h : one.Alike other) (member : Member π) (slots : Nat)
    (change : Totals → Totals) :
    (one.recordFor member change).Alike (other.recordFor (member.withSlots slots) change) := by
  have hcollector : (member.withSlots slots).collector = member.collector := rfl
  rw [Pool.recordFor, Pool.recordFor, hcollector]
  cases member.collector with
  | none => exact h
  | some collector => exact h.record collector change

theorem Alike.addCollector (h : one.Alike other) :
    one.addCollector.1 = other.addCollector.1 ∧ one.addCollector.2.Alike other.addCollector.2 :=
  ⟨congrArg List.length h.collectors_eq, h.members,
    congrArg (· ++ [Totals.zero]) h.collectors_eq, h.handles_eq⟩

/-- A reservoir is replaced in both pools by one that differs in storage alone, and a note of it
goes to its collector. -/
theorem Alike.exchange (h : one.Alike other) (hmembers : AlikeMembers members members')
    (name : String) (member : Member π) (slots : Nat) {reservoir reservoir' : Reservoir π}
    (hreservoir : reservoir.Alike reservoir') {change change' : Totals → Totals}
    (hchange : change = change') :
    let after := members.put name { member with reservoir := reservoir }
    let after' := members'.put name { member.withSlots slots with reservoir := reservoir' }
    Alike (({ one with members := after } : Pool π).recordFor member change)
      (({ other with members := after' } : Pool π).recordFor (member.withSlots slots) change') := by
  obtain ⟨slots', rfl⟩ := hreservoir
  subst hchange
  have hput := hmembers.put name { member with reservoir := reservoir } slots'
  exact (h.withMembers hput).recordFor member slots change

/-! ### Single commands -/

theorem Alike.place (h : one.Alike other) (name : String) (member : Member π) :
    (one.place name member).Agree Alike (other.place name member) := by
  obtain ⟨slots, hfind⟩ := h.members name
  refine ⟨rfl, ?_, h.withMembers (h.members.put name member member.reservoir.heap.capacity)⟩
  simp only [Pool.place, reservoir?, hfind]
  cases one.members.find? name with
  | none => rfl
  | some replaced => rfl

theorem Alike.add {name : String} {event : Event π} (h : one.Alike other)
    (hone : (one.add name event).answer.succeeded = true)
    (hother : (other.add name event).answer.succeeded = true) :
    (one.add name event).Agree Alike (other.add name event) := by
  obtain ⟨slots, hfind⟩ := h.members name
  rw [Pool.add] at hone hother ⊢
  rw [Pool.add]
  rw [hfind] at hother ⊢
  cases hmember : one.members.find? name with
  | none => exact ⟨rfl, rfl, h⟩
  | some member =>
    rw [hmember] at hone hother
    have hreservoir : member.reservoir.Alike (member.withSlots slots).reservoir := ⟨slots, rfl⟩
    have hadd := hreservoir.add hone hother
    have hnote := congrArg failureNote hadd.answer_eq
    exact ⟨congrArg Answer.added hadd.answer_eq, hadd.discards_eq,
      h.exchange h.members name member slots hadd.state hnote⟩

theorem Alike.merge {name donor : String} (h : one.Alike other)
    (hone : (one.merge name donor).answer.succeeded = true)
    (hother : (other.merge name donor).answer.succeeded = true) :
    (one.merge name donor).Agree Alike (other.merge name donor) := by
  have hothers := h.members.erase donor
  obtain ⟨slots, hfind⟩ := hothers name
  obtain ⟨slots', hfind'⟩ := h.members donor
  rw [Pool.merge] at hone hother ⊢
  rw [Pool.merge]
  simp only [hfind, hfind'] at hother ⊢
  cases hmember : (one.members.erase donor).find? name with
  | none => exact ⟨rfl, rfl, h⟩
  | some member =>
    cases hdonor : one.members.find? donor with
    | none => exact ⟨rfl, rfl, h⟩
    | some given =>
      rw [hmember, hdonor] at hone hother
      have hreservoir : member.reservoir.Alike (member.withSlots slots).reservoir := ⟨slots, rfl⟩
      have hgiven : given.reservoir.Alike (given.withSlots slots').reservoir := ⟨slots', rfl⟩
      have hmerge := hreservoir.merge hgiven hone hother
      have hnote := congrArg failureNote hmerge.answer_eq
      exact ⟨congrArg Answer.merged hmerge.answer_eq, hmerge.discards_eq,
        h.exchange hothers name member slots hmerge.state hnote⟩

theorem Alike.pop (h : one.Alike other) (name : String) (side : Side) :
    (one.pop name side).Agree Alike (other.pop name side) := by
  obtain ⟨slots, hfind⟩ := h.members name
  rw [Pool.pop, Pool.pop, hfind]
  cases hmember : one.members.find? name with
  | none => exact ⟨rfl, rfl, h⟩
  | some member =>
    have hpop := Reservoir.pop_withSlots side slots member.reservoir
    simp only [Option.map_some, Member.withSlots, hpop]
    cases member.reservoir.pop side with
    | none => exact ⟨rfl, rfl, h⟩
    | some pair =>
      have hput := h.members.put name { member with reservoir := pair.2 } slots
      exact ⟨rfl, rfl, h.withMembers hput⟩

theorem Alike.harvest (h : one.Alike other) (name : String) :
    (one.harvest name).Agree Alike (other.harvest name) := by
  obtain ⟨slots, hfind⟩ := h.members name
  rw [Pool.harvest, Pool.harvest, hfind]
  cases hmember : one.members.find? name with
  | none => exact ⟨rfl, rfl, h⟩
  | some member =>
    have hharvest := Reservoir.harvest_withSlots slots member.reservoir
    have hrest : member.reservoir.harvest.2.Alike (member.withSlots slots).reservoir.harvest.2 :=
      ⟨slots, congrArg Prod.snd hharvest⟩
    have hyield := (congrArg Prod.fst hharvest).symm
    have hnote := congrArg (fun harvest : Harvest π => Totals.recordHarvest harvest.stats) hyield
    exact ⟨congrArg Answer.harvested hyield, rfl,
      h.exchange h.members name member slots hrest hnote⟩

/-- A change of a member that does not look at its storage. -/
theorem Alike.adjust (h : one.Alike other) (name : String) {change : Member π → Member π}
    (hchange : ∀ slots member, change (member.withSlots slots) = (change member).withSlots slots) :
    (one.adjust name change).Agree Alike (other.adjust name change) := by
  obtain ⟨slots, hfind⟩ := h.members name
  rw [Pool.adjust, Pool.adjust, hfind]
  cases hmember : one.members.find? name with
  | none => exact ⟨rfl, rfl, h⟩
  | some member =>
    have hput := h.members.put name (change member) slots
    rw [← hchange] at hput
    exact ⟨rfl, rfl, h.withMembers hput⟩

theorem Alike.collectorFor (h : one.Alike other) (handle : Option String) :
    (one.collectorFor handle = none ∧ other.collectorFor handle = none) ∨
    ∃ collector one' other', one.collectorFor handle = some (collector, one') ∧
      other.collectorFor handle = some (collector, other') ∧ one'.Alike other' := by
  cases handle with
  | none =>
    obtain ⟨hnumber, hadded⟩ := h.addCollector
    exact .inr ⟨_, _, _, rfl, congrArg (fun number => some (number, _)) hnumber.symm, hadded⟩
  | some handle =>
    rw [Pool.collectorFor, Pool.collectorFor, h.handles_eq]
    cases other.handles.find? handle with
    | none => exact .inl ⟨rfl, rfl⟩
    | some collector => exact .inr ⟨collector, one, other, rfl, rfl, h⟩

theorem Alike.share (h : one.Alike other) (name : String) (handle : Option String) :
    (one.share name handle).Agree Alike (other.share name handle) := by
  obtain ⟨slots, hfind⟩ := h.members name
  rw [Pool.share, Pool.share, hfind]
  cases hmember : one.members.find? name with
  | none => exact ⟨rfl, rfl, h⟩
  | some member =>
    rcases h.collectorFor handle with ⟨hnone, hnone'⟩ |
      ⟨collector, one', other', hsome, hsome', halike⟩
    · rw [hnone, hnone']
      exact ⟨rfl, rfl, h⟩
    · rw [hsome, hsome']
      have hput := halike.members.put name { member with collector := some collector } slots
      exact ⟨rfl, rfl, halike.withMembers hput⟩

theorem Alike.drop (h : one.Alike other) (name : String) :
    (one.drop name).Agree Alike (other.drop name) := by
  obtain ⟨slots, hfind⟩ := h.members name
  rw [Pool.drop, Pool.drop, hfind]
  cases hmember : one.members.find? name with
  | none => exact ⟨rfl, rfl, h⟩
  | some member => exact ⟨rfl, rfl, h.withMembers (h.members.erase name)⟩

theorem Alike.recordAt (h : one.Alike other) (handle : String) (change : Totals → Totals) :
    (one.recordAt handle change).Agree Alike (other.recordAt handle change) := by
  rw [Pool.recordAt, Pool.recordAt, h.handles_eq]
  cases other.handles.find? handle with
  | none => exact ⟨rfl, rfl, h⟩
  | some collector => exact ⟨rfl, rfl, h.record collector change⟩

theorem Alike.putHandle (h : one.Alike other) (handle : String) (collector : Option Nat) :
    (one.putHandle handle collector).Agree Alike (other.putHandle handle collector) := by
  cases collector with
  | none => exact ⟨rfl, rfl, h⟩
  | some collector =>
    exact ⟨rfl, rfl, h.members, h.collectors_eq,
      congrArg (Directory.put handle collector) h.handles_eq⟩

/-- A command that fails in neither of two alike pools does the same in both. -/
theorem Alike.apply {command : Command π} (h : one.Alike other)
    (hone : (one.apply command).answer.succeeded = true)
    (hother : (other.apply command).answer.succeeded = true) :
    (one.apply command).Agree Alike (other.apply command) := by
  cases command with
  | placeLocal name reservoir => exact h.place name _
  | placeShared name reservoir =>
    obtain ⟨hnumber, hadded⟩ := h.addCollector
    simp only [Pool.apply, Pool.placeShared, hnumber]
    exact hadded.place name _
  | add name event => exact h.add hone hother
  | merge name donor => exact h.merge hone hother
  | pop name side => exact h.pop name side
  | harvest name => exact h.harvest name
  | setHook name hook => exact h.adjust name fun _ _ => rfl
  | setMemory name memory => exact h.adjust name fun _ _ => rfl
  | share name handle => exact h.share name handle
  | unshare name => exact h.adjust name fun _ _ => rfl
  | drop name => exact h.drop name
  | openCollector handle =>
    obtain ⟨hnumber, hadded⟩ := h.addCollector
    exact ⟨rfl, rfl, hadded.members, hadded.collectors_eq,
      congrArg₂ (Directory.put handle) hnumber h.handles_eq⟩
  | copyHandle handle copy =>
    simp only [Pool.apply, h.handles_eq]
    exact h.putHandle copy _
  | handleOf handle name =>
    obtain ⟨slots, hfind⟩ := h.members name
    have hcollector : (other.members.find? name).bind Member.collector =
        (one.members.find? name).bind Member.collector := by
      rw [hfind, Option.bind_map]
      rfl
    simp only [Pool.apply, hcollector]
    exact h.putHandle handle _
  | recordHarvest handle stats => exact h.recordAt handle _
  | recordFailure handle => exact h.recordAt handle _
  | reset handle => exact h.recordAt handle _

/-- Alike pools cannot be told apart by what happens to them, as long as no call fails. -/
theorem Alike.run {history : List (Command π)} (h : one.Alike other)
    (hone : ∀ answer ∈ (one.run history).answer, answer.succeeded = true)
    (hother : ∀ answer ∈ (other.run history).answer, answer.succeeded = true) :
    (one.run history).Agree Alike (other.run history) := by
  induction history generalizing one other with
  | nil => exact ⟨rfl, rfl, h⟩
  | cons command later ih =>
    obtain ⟨hfirst, hlater⟩ := List.forall_mem_cons.mp hone
    obtain ⟨hfirst', hlater'⟩ := List.forall_mem_cons.mp hother
    have hstep := h.apply hfirst hfirst'
    have hrest := ih hstep.state hlater hlater'
    exact ⟨congrArg₂ List.cons hstep.answer_eq hrest.answer_eq,
      congrArg₂ (· ++ ·) hstep.discards_eq hrest.discards_eq, hrest.state⟩

end Alike

end Pool

end PrioritySampling
