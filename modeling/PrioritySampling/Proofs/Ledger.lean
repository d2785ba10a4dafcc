import Mathlib.Tactic.Common
import PrioritySampling.Proofs.Storage
import PrioritySampling.Reservoir.Blueprint
/-!
# The ledger of a reservoir

A reservoir counts in 64 bits, and only what was offered, turned away and evicted.  A ledger
writes down in natural numbers what has become of every event offered in a cycle, so that the
events that were taken out and those that were lost for lack of storage are in it as well.

`Accounts` ties the two together: the counts are those of the ledger, and the ledger balances.
Between the moment at which an event counts as seen and the one at which it is offered to the
heap the ledger is out of balance by one, and during a merge by all the events that are still to
come.  So the balance has a number of pending events in it, and each offer uses up one of them.
-/

namespace PrioritySampling

/-- What became of the events of one cycle. -/
structure Ledger where
  /-- Events offered. -/
  seen : Nat
  /-- Events turned away on arrival. -/
  rejected : Nat
  /-- Events that had to make room for others. -/
  evicted : Nat
  /-- Events taken out one by one. -/
  popped : Nat
  /-- Events that there was no storage for. -/
  lost : Nat
  deriving DecidableEq, Repr

/-- A reservoir with the counts of another added to its own. -/
def Reservoir.addCounts {π : Type} (reservoir other : Reservoir π) : Reservoir π :=
  { reservoir with
    seen := reservoir.seen + other.seen
    rejected := reservoir.rejected + other.rejected
    evicted := reservoir.evicted + other.evicted }

namespace Ledger

/-- Nothing has happened. -/
def zero : Ledger :=
  ⟨0, 0, 0, 0, 0⟩

/-- One more event has been offered. -/
def see (ledger : Ledger) : Ledger :=
  { ledger with seen := ledger.seen + 1 }

/-- Notes what became of an event. -/
def note (outcome : Except Error Insertion) (ledger : Ledger) : Ledger :=
  match outcome with
  | .ok .inserted => ledger
  | .ok .replaced => { ledger with evicted := ledger.evicted + 1 }
  | .ok .rejected => { ledger with rejected := ledger.rejected + 1 }
  | .error _ => { ledger with lost := ledger.lost + 1 }

variable {π : Type}

/-- Notes an event that is added to a reservoir. -/
def add (memory : Memory) (reservoir : Reservoir π) (event : Event π) (ledger : Ledger) : Ledger :=
  ledger.see.note (reservoir.heap.insert memory event).answer

/-- One more event has been taken out. -/
def take (ledger : Ledger) : Ledger :=
  { ledger with popped := ledger.popped + 1 }

/-- Both ledgers in one. -/
def join (a b : Ledger) : Ledger :=
  ⟨a.seen + b.seen, a.rejected + b.rejected, a.evicted + b.evicted, a.popped + b.popped,
    a.lost + b.lost⟩

/-- Notes what becomes of events that are offered to a reservoir one by one.  The one that
storage fails for is lost, and so are those that would have come after it. -/
def absorb (memory : Memory) : List (Event π) → Reservoir π → Ledger → Ledger
  | [], _, ledger => ledger
  | event :: later, reservoir, ledger =>
    match (reservoir.heap.insert memory event).answer with
    | .ok outcome =>
      absorb memory later (reservoir.offer memory event).state (ledger.note (.ok outcome))
    | .error _ => { ledger with lost := ledger.lost + 1 + later.length }

/-- The ledger of a reservoir that another one is merged into. -/
def merge (memory : Memory) (reservoir other : Reservoir π) (ledger ledger' : Ledger) :
    Ledger :=
  (ledger.join ledger').absorb memory other.events (reservoir.addCounts other)

@[simp]
theorem seen_note (outcome : Except Error Insertion) (ledger : Ledger) :
    (ledger.note outcome).seen = ledger.seen := by
  rcases outcome with failure | (_ | _ | _) <;> rfl

theorem seen_add (memory : Memory) (reservoir : Reservoir π) (event : Event π) (ledger : Ledger) :
    (ledger.add memory reservoir event).seen = ledger.seen + 1 :=
  seen_note _ _

theorem seen_absorb (memory : Memory) (events : List (Event π)) (reservoir : Reservoir π)
    (ledger : Ledger) : (ledger.absorb memory events reservoir).seen = ledger.seen := by
  induction events generalizing reservoir ledger with
  | nil => rfl
  | cons event later ih =>
    rw [absorb]
    split
    · rw [ih, seen_note]
    · rfl

theorem seen_merge (memory : Memory) (reservoir other : Reservoir π) (ledger ledger' : Ledger) :
    (ledger.merge memory reservoir other ledger').seen = ledger.seen + ledger'.seen :=
  seen_absorb memory other.events (reservoir.addCounts other) (ledger.join ledger')

end Ledger

namespace Reservoir

variable {π : Type}

/-! ## New reservoirs -/

/-- A reservoir that has just been made in one of the ways there are, and perhaps given a hook. -/
inductive Made : Reservoir π → Prop
  | unlimited : Made unlimited
  | ofCapacity {memory : Memory} {capacity : Nat} {reservoir : Reservoir π}
      (h : ofCapacity memory capacity = .ok reservoir) : Made reservoir
  | ofConfig {memory : Memory} {config : Config} {reservoir : Reservoir π}
      (h : ofConfig memory config = .ok reservoir) : Made reservoir
  | built {memory : Memory} {plan : Blueprint .sized} {reservoir : Reservoir π}
      (h : plan.build memory = .ok reservoir) : Made reservoir
  | hooked {reservoir : Reservoir π} (h : Made reservoir) (hook : Hook) :
      Made (reservoir.setHook hook)

theorem exists_of_withLimit {memory : Memory} {limit : Limit} {name : String}
    {reservoir : Reservoir π} (h : withLimit memory limit name = .ok reservoir) :
    ∃ heap, heap.Made ∧ reservoir = fresh name heap := by
  obtain ⟨heap, hheap, h⟩ := Error.exists_of_bind_eq_ok h
  cases h
  exact ⟨heap, .limited hheap, rfl⟩

/-- A new reservoir has counted nothing, and its heap is new. -/
theorem Made.exists_heap {reservoir : Reservoir π} (h : reservoir.Made) :
    ∃ name heap, heap.Made ∧ reservoir = fresh name heap := by
  induction h with
  | unlimited => exact ⟨_, _, .unlimited, rfl⟩
  | ofCapacity h =>
    obtain ⟨limit, -, h⟩ := Error.exists_of_bind_eq_ok h
    exact ⟨_, exists_of_withLimit h⟩
  | ofConfig h =>
    obtain ⟨limit, -, h⟩ := Error.exists_of_bind_eq_ok h
    exact ⟨_, exists_of_withLimit h⟩
  | @built memory plan reservoir h =>
    obtain ⟨-, -, h⟩ := Error.exists_of_bind_eq_ok h
    obtain ⟨limit, -, h⟩ := Error.exists_of_bind_eq_ok h
    obtain ⟨first, hfirst, h⟩ := Error.exists_of_bind_eq_ok h
    obtain ⟨heap, hheap, rfl⟩ := exists_of_withLimit hfirst
    cases hhook : plan.hook with
    | none =>
      rw [hhook] at h
      cases h
      exact ⟨_, heap, hheap, rfl⟩
    | some hook =>
      rw [hhook] at h
      cases h
      exact ⟨_, heap.setHook hook, hheap.hooked hook, rfl⟩
  | hooked h hook ih =>
    obtain ⟨name, heap, hheap, rfl⟩ := ih
    exact ⟨name, heap.setHook hook, hheap.hooked hook, rfl⟩

/-! ## The balance -/

/-- The counts of a reservoir are those of the ledger, and the ledger balances but for the events
that are counted as seen and still pending. -/
structure Accounts (reservoir : Reservoir π) (ledger : Ledger) (pending : Nat) : Prop where
  sound : reservoir.heap.Sound
  seen_eq : reservoir.seen = .ofNat ledger.seen
  rejected_eq : reservoir.rejected = .ofNat ledger.rejected
  evicted_eq : reservoir.evicted = .ofNat ledger.evicted
  balance : ledger.seen =
    reservoir.heap.size + ledger.rejected + ledger.evicted + ledger.popped + ledger.lost + pending

theorem Made.accounts {reservoir : Reservoir π} (h : reservoir.Made) :
    reservoir.Accounts .zero 0 := by
  obtain ⟨name, heap, hheap, rfl⟩ := h.exists_heap
  have hsize : heap.size = 0 := congrArg List.length hheap.toList_eq_nil
  exact ⟨hheap.sound, rfl, rfl, rfl, hsize.symm⟩

section Accounts

variable {reservoir other : Reservoir π} {ledger ledger' : Ledger} {pending : Nat}

theorem ofNat_succ (n : Nat) : UInt64.ofNat (n + 1) = UInt64.ofNat n + 1 :=
  UInt64.ofNat_add n 1

theorem answer_offer (memory : Memory) (event : Event π) (reservoir : Reservoir π) :
    (reservoir.offer memory event).answer = (reservoir.heap.insert memory event).answer := by
  rw [offer]
  split
  · rename_i houtcome
    exact houtcome.symm
  · rename_i hfailure
    exact hfailure.symm

theorem heap_offer (memory : Memory) (event : Event π) (reservoir : Reservoir π) :
    (reservoir.offer memory event).state.heap = (reservoir.heap.insert memory event).state := by
  rw [offer]
  split
  · rename_i outcome houtcome
    cases outcome with
    | inserted | replaced | rejected => rfl
  · rfl

theorem discards_offer (memory : Memory) (event : Event π) (reservoir : Reservoir π) :
    (reservoir.offer memory event).discards = (reservoir.heap.insert memory event).discards := by
  rw [offer]
  split
  · rfl
  · rfl

theorem seen_offer (memory : Memory) (event : Event π) (reservoir : Reservoir π) :
    (reservoir.offer memory event).state.seen = reservoir.seen := by
  rw [offer]
  split
  · rename_i outcome houtcome
    cases outcome with
    | inserted | replaced | rejected => rfl
  · rfl

theorem seen_add (memory : Memory) (event : Event π) (reservoir : Reservoir π) :
    (reservoir.add memory event).state.seen = reservoir.seen + 1 :=
  seen_offer memory event _

theorem seen_absorb (memory : Memory) (events : List (Event π)) (reservoir : Reservoir π) :
    (reservoir.absorb memory events).state.seen = reservoir.seen := by
  induction events generalizing reservoir with
  | nil => rfl
  | cons event later ih =>
    rw [absorb]
    split
    · exact (ih _).trans (seen_offer memory event reservoir)
    · exact seen_offer memory event reservoir

theorem seen_pop {side : Side} {event : Event π} {rest : Reservoir π}
    (hpop : reservoir.pop side = some (event, rest)) : rest.seen = reservoir.seen := by
  simp only [Reservoir.pop, Option.map_eq_some_iff] at hpop
  obtain ⟨⟨_, heap⟩, -, ⟨⟩⟩ := hpop
  rfl

theorem answer_add (memory : Memory) (event : Event π) (reservoir : Reservoir π) :
    (reservoir.add memory event).answer =
      (reservoir.heap.insert memory event).answer.map Insertion.displaced := by
  rw [add]
  exact congrArg (Except.map Insertion.displaced) (answer_offer memory event _)

theorem heap_add (memory : Memory) (event : Event π) (reservoir : Reservoir π) :
    (reservoir.add memory event).state.heap = (reservoir.heap.insert memory event).state :=
  heap_offer memory event _

theorem discards_add (memory : Memory) (event : Event π) (reservoir : Reservoir π) :
    (reservoir.add memory event).discards = (reservoir.heap.insert memory event).discards :=
  discards_offer memory event _

theorem sound_offer (hsound : reservoir.heap.Sound) (memory : Memory) (event : Event π) :
    (reservoir.offer memory event).state.heap.Sound := by
  rw [heap_offer]
  exact hsound.offer (MinMaxHeap.offer_insert hsound memory event)

theorem sound_add (hsound : reservoir.heap.Sound) (memory : Memory) (event : Event π) :
    (reservoir.add memory event).state.heap.Sound := by
  rw [heap_add]
  exact hsound.offer (MinMaxHeap.offer_insert hsound memory event)

/-- An offer settles one pending event. -/
theorem Accounts.offer (h : reservoir.Accounts ledger (pending + 1)) (memory : Memory)
    (event : Event π) :
    Accounts (reservoir.offer memory event).state
      (ledger.note (reservoir.heap.insert memory event).answer) pending := by
  have hbalance := h.balance
  have hoffer := MinMaxHeap.offer_insert h.sound memory event
  have hsound := h.sound.offer hoffer
  rw [Reservoir.offer]
  generalize reservoir.heap.insert memory event = step at hoffer hsound ⊢
  cases hoffer with
  | @inserted capacity hfull hroom =>
    have hsize : ((reservoir.heap.withCapacity capacity).push event).size =
        reservoir.heap.size + 1 := MinMaxHeap.size_push _ event
    refine ⟨hsound, h.seen_eq, h.rejected_eq, h.evicted_eq, ?_⟩
    simp only [Ledger.note, tally, hsize]
    omega
  | refused hlimit hsize hreserves =>
    refine ⟨hsound, h.seen_eq, h.rejected_eq, h.evicted_eq, ?_⟩
    simp only [Ledger.note]
    omega
  | rejected hfull hleast hvalue =>
    refine ⟨hsound, h.seen_eq, ?_, h.evicted_eq, ?_⟩
    · simp only [Ledger.note, tally, ofNat_succ, h.rejected_eq]
    · simp only [Ledger.note, tally]
      omega
  | @replaced least rest hfull hpop hvalue =>
    have hsize : (rest.push event).size = reservoir.heap.size := by
      rw [MinMaxHeap.size_push, MinMaxHeap.size_of_pop hpop]
    refine ⟨hsound, h.seen_eq, h.rejected_eq, ?_, ?_⟩
    · simp only [Ledger.note, tally, ofNat_succ, h.evicted_eq]
    · simp only [Ledger.note, tally, hsize]
      omega

theorem Accounts.add (h : reservoir.Accounts ledger 0) (memory : Memory) (event : Event π) :
    Accounts (reservoir.add memory event).state (ledger.add memory reservoir event) 0 := by
  have hbalance := h.balance
  have hseen : Accounts { reservoir with seen := reservoir.seen + 1 } ledger.see 1 := by
    refine ⟨h.sound, ?_, h.rejected_eq, h.evicted_eq, ?_⟩
    · simp only [Ledger.see, ofNat_succ, h.seen_eq]
    · simp only [Ledger.see]
      omega
  exact hseen.offer memory event

/-- A series of offers settles all pending events, whether or not storage fails on the way. -/
theorem Accounts.absorb {events : List (Event π)}
    (h : reservoir.Accounts ledger events.length) (memory : Memory) :
    Accounts (reservoir.absorb memory events).state (ledger.absorb memory events reservoir) 0 := by
  induction events generalizing reservoir ledger with
  | nil => exact h
  | cons event later ih =>
    have hoffer := h.offer memory event
    rw [Reservoir.absorb, Ledger.absorb, answer_offer]
    cases hanswer : (reservoir.heap.insert memory event).answer with
    | ok outcome =>
      rw [hanswer] at hoffer
      exact ih hoffer
    | error failure =>
      rw [hanswer] at hoffer
      have hbalance := hoffer.balance
      refine ⟨hoffer.sound, hoffer.seen_eq, hoffer.rejected_eq, hoffer.evicted_eq, ?_⟩
      simp only [Ledger.note] at hbalance ⊢
      omega

theorem Accounts.merge (h : reservoir.Accounts ledger 0) (h' : other.Accounts ledger' 0)
    (memory : Memory) :
    Accounts (reservoir.merge memory other).state (ledger.merge memory reservoir other ledger')
      0 := by
  have hbalance := h.balance
  have hbalance' := h'.balance
  have hlength : other.events.length = other.heap.size := rfl
  have hcounts :
      (reservoir.addCounts other).Accounts (ledger.join ledger') other.events.length := by
    refine ⟨h.sound, ?_, ?_, ?_, ?_⟩
    · simp only [addCounts, Ledger.join, UInt64.ofNat_add, h.seen_eq, h'.seen_eq]
    · simp only [addCounts, Ledger.join, UInt64.ofNat_add, h.rejected_eq, h'.rejected_eq]
    · simp only [addCounts, Ledger.join, UInt64.ofNat_add, h.evicted_eq, h'.evicted_eq]
    · simp only [addCounts, Ledger.join]
      omega
  exact hcounts.absorb memory

theorem Accounts.pop {side : Side} {event : Event π} {rest : Reservoir π}
    (h : reservoir.Accounts ledger 0) (hpop : reservoir.pop side = some (event, rest)) :
    rest.Accounts ledger.take 0 := by
  simp only [Reservoir.pop, Option.map_eq_some_iff] at hpop
  obtain ⟨⟨_, heap⟩, hpop, ⟨⟩⟩ := hpop
  have hbalance := h.balance
  have hsize := MinMaxHeap.size_of_pop hpop
  refine ⟨h.sound.pop hpop, h.seen_eq, h.rejected_eq, h.evicted_eq, ?_⟩
  simp only [Ledger.take]
  omega

/-- A harvest closes the ledger. -/
theorem Accounts.harvest (h : reservoir.Accounts ledger 0) :
    Accounts reservoir.harvest.2 .zero 0 := by
  have hdrain := (MinMaxHeap.drain_spec .high reservoir.heap).2
  simp only [Reservoir.harvest, hdrain]
  exact ⟨h.sound.withItems (Nat.zero_le _), rfl, rfl, rfl, rfl⟩

theorem Accounts.setHook (h : reservoir.Accounts ledger 0) (hook : Hook) :
    Accounts (reservoir.setHook hook) ledger 0 :=
  ⟨h.sound.setHook hook, h.seen_eq, h.rejected_eq, h.evicted_eq, h.balance⟩

/-! ## What the counts tell -/

theorem Accounts.size_lt (h : reservoir.Accounts ledger pending) :
    reservoir.heap.size < Memory.ceiling :=
  Nat.lt_of_le_of_lt h.sound.size_le h.sound.capacity_lt

theorem Accounts.toNat_saved (h : reservoir.Accounts ledger pending) :
    reservoir.saved.toNat = reservoir.heap.size :=
  UInt64.toNat_ofNat_of_lt' (Nat.lt_trans h.size_lt (by decide))

/-- The limit of a heap is a number that fits into 64 bits. -/
theorem Accounts.capacity_lt (h : reservoir.Accounts ledger pending) :
    reservoir.capacity < Memory.ceiling := by
  rw [capacity, MinMaxHeap.bound]
  cases hlimit : reservoir.heap.limit with
  | unbounded => decide
  | atMost count =>
    rw [Limit.toNat, ← h.sound.capacity_eq count hlimit]
    exact h.sound.capacity_lt

theorem Accounts.saved_le_capacity (h : reservoir.Accounts ledger pending)
    (hbounded : reservoir.capacity ≠ 0) : reservoir.saved.toNat ≤ reservoir.capacity := by
  rw [h.toNat_saved]
  rw [capacity, MinMaxHeap.bound] at hbounded ⊢
  cases hlimit : reservoir.heap.limit with
  | unbounded =>
    rw [hlimit] at hbounded
    exact absurd rfl hbounded
  | atMost count =>
    rw [Limit.toNat, ← h.sound.capacity_eq count hlimit]
    exact h.sound.size_le

/-- The statistics tell that a reservoir is full if and only if its heap is. -/
theorem Accounts.isFull_stats (h : reservoir.Accounts ledger pending) :
    reservoir.stats.isFull = reservoir.heap.isFull := by
  have hcapacity : reservoir.stats.capacity.toNat = reservoir.capacity :=
    UInt64.toNat_ofNat_of_lt' (Nat.lt_trans h.capacity_lt (by decide))
  have hsaved : reservoir.stats.saved.toNat = reservoir.heap.size := h.toNat_saved
  rw [Bool.eq_iff_iff, Stats.isFull, Bool.and_eq_true, decide_eq_true_eq, decide_eq_true_eq,
    UInt64.lt_iff_toNat_lt, UInt64.le_iff_toNat_le, hcapacity, hsaved]
  rw [capacity, MinMaxHeap.bound, MinMaxHeap.isFull]
  cases hlimit : reservoir.heap.limit with
  | unbounded => simp [Limit.toNat]
  | atMost count =>
    have htwo := h.sound.two_le count hlimit
    simp only [Limit.toNat, UInt64.toNat_zero, decide_eq_true_eq, and_iff_right_iff_imp]
    omega

/-- The counts balance in 64 bits even if they have wrapped around. -/
theorem Accounts.seen_eq_sum (h : reservoir.Accounts ledger 0) :
    reservoir.seen = reservoir.saved + reservoir.rejected + reservoir.evicted +
      .ofNat ledger.popped + .ofNat ledger.lost := by
  rw [h.seen_eq, h.rejected_eq, h.evicted_eq, saved, h.balance]
  simp only [UInt64.ofNat_add, Nat.add_zero]

/-- The counts of a reservoir are exact. -/
structure Exact (reservoir : Reservoir π) (ledger : Ledger) : Prop where
  seen_eq : reservoir.seen.toNat = ledger.seen
  saved_eq : reservoir.saved.toNat = reservoir.heap.size
  rejected_eq : reservoir.rejected.toNat = ledger.rejected
  evicted_eq : reservoir.evicted.toNat = ledger.evicted
  balance : reservoir.seen.toNat = reservoir.saved.toNat + reservoir.rejected.toNat +
    reservoir.evicted.toNat + ledger.popped + ledger.lost

/-- Counts that have not reached the end of their range are exact. -/
theorem Accounts.exact (h : reservoir.Accounts ledger 0) (hlt : ledger.seen < UInt64.size) :
    reservoir.Exact ledger := by
  have hbalance := h.balance
  have hseen : reservoir.seen.toNat = ledger.seen := by
    rw [h.seen_eq]
    exact UInt64.toNat_ofNat_of_lt' hlt
  have hrejected : reservoir.rejected.toNat = ledger.rejected := by
    rw [h.rejected_eq]
    exact UInt64.toNat_ofNat_of_lt' (Nat.lt_of_le_of_lt (by omega) hlt)
  have hevicted : reservoir.evicted.toNat = ledger.evicted := by
    rw [h.evicted_eq]
    exact UInt64.toNat_ofNat_of_lt' (Nat.lt_of_le_of_lt (by omega) hlt)
  refine ⟨hseen, h.toNat_saved, hrejected, hevicted, ?_⟩
  rw [hseen, hrejected, hevicted, h.toNat_saved]
  omega

theorem Exact.saved_le (h : reservoir.Exact ledger) : reservoir.saved ≤ reservoir.seen := by
  have hbalance := h.balance
  rw [UInt64.le_iff_toNat_le]
  omega

/-- The difference of events seen and held is never clipped. -/
theorem Exact.dropped_eq (h : reservoir.Exact ledger) :
    reservoir.dropped = reservoir.seen - reservoir.saved := by
  rw [dropped, if_pos h.saved_le]

theorem Exact.saved_add_dropped (h : reservoir.Exact ledger) :
    reservoir.stats.saved.toNat + reservoir.stats.dropped.toNat = reservoir.stats.seen.toNat := by
  have hle := UInt64.le_iff_toNat_le.mp h.saved_le
  simp only [stats, h.dropped_eq, UInt64.toNat_sub_of_le _ _ h.saved_le]
  omega

theorem Exact.rejected_add_evicted_le (h : reservoir.Exact ledger) :
    reservoir.rejected.toNat + reservoir.evicted.toNat ≤ reservoir.seen.toNat := by
  have hbalance := h.balance
  omega

end Accounts

end Reservoir

end PrioritySampling
