import PrioritySampling.Proofs.Admission
import PrioritySampling.Proofs.Priorities
import PrioritySampling.Proofs.Replay
/-!
# Recency

Of two events of equal priority the later one ranks higher, and a reservoir with a limit gives up
the earlier one first.  This is no better than the clock that the events are stamped by, whose
readings ought not to decrease.

A clock that is moved by hand keeps to this as long as it is moved by fewer than 2^64 steps
altogether.  Its reading is the number of steps modulo 2^64, nothing stops it at the end, and so
it falls back whenever the steps between two readings carry it past the end but not as far as the
first reading again.  Then, and only then, the later of two events of equal priority ranks below
the earlier one.

Events with the same reading have the same rank.  Between these a reservoir has no preference, and
neither of them is the older one.
-/

namespace PrioritySampling

namespace Clock

/-! ## Moving a clock -/

/-- What can be done to a clock. -/
inductive Action where
  /-- Move it on. -/
  | advance (steps : UInt64)
  /-- Read it and move it on by one. -/
  | tick
  /-- Read it. -/
  | now
  deriving DecidableEq, Repr

/-- The steps that an action moves a clock on. -/
def Action.steps : Action → Nat
  | advance steps => steps.toNat
  | tick => 1
  | now => 0

/-- The steps of several actions. -/
def distance (actions : List Action) : Nat :=
  (actions.map Action.steps).sum

/-- The clock after an action. -/
def apply (clock : Clock) : Action → Clock
  | .advance steps => clock.advance steps
  | .tick => clock.tick.2
  | .now => clock

/-- The clock after several actions. -/
def run (clock : Clock) (actions : List Action) : Clock :=
  actions.foldl apply clock

section Run

variable (clock : Clock) (actions : List Action)

theorem toNat_now_apply (action : Action) :
    (clock.apply action).now.toNat = (clock.now.toNat + action.steps) % UInt64.size := by
  cases action with
  | advance steps => exact UInt64.toNat_add clock.now steps
  | tick => exact UInt64.toNat_add clock.now 1
  | now => exact (Nat.mod_eq_of_lt clock.now.toNat_lt).symm

/-- A clock shows its steps modulo the size of a word. -/
theorem toNat_now_run :
    (clock.run actions).now.toNat = (clock.now.toNat + distance actions) % UInt64.size := by
  induction actions generalizing clock with
  | nil => exact (Nat.mod_eq_of_lt clock.now.toNat_lt).symm
  | cons action later ih =>
    have hdistance : distance (action :: later) = action.steps + distance later := rfl
    rw [run, List.foldl_cons, ← run, ih, toNat_now_apply, Nat.mod_add_mod, hdistance,
      Nat.add_assoc]

/-- A clock falls back if the steps, but for whole rounds, carry it past the end. -/
theorem now_run_lt_iff :
    (clock.run actions).now < clock.now ↔
      UInt64.size ≤ clock.now.toNat + distance actions % UInt64.size := by
  have hlt := clock.now.toNat_lt
  rw [UInt64.lt_iff_toNat_lt, toNat_now_run, UInt64.size]
  omega

/-- Before the end a clock goes on by as many steps as there are. -/
theorem toNat_now_run_of_lt (h : clock.now.toNat + distance actions < UInt64.size) :
    (clock.run actions).now.toNat = clock.now.toNat + distance actions := by
  rw [toNat_now_run, Nat.mod_eq_of_lt h]

end Run

theorem distance_append (before between : List Action) :
    distance (before ++ between) = distance before + distance between := by
  rw [distance, List.map_append, List.sum_append]
  rfl

/-- Before the end the readings do not decrease, and they stand still only if nothing moves. -/
theorem now_le_run {before between : List Action}
    (h : distance (before ++ between) < UInt64.size) :
    (start.run before).now ≤ ((start.run before).run between).now ∧
      ((start.run before).now = ((start.run before).run between).now ↔ distance between = 0) := by
  rw [distance_append] at h
  have hzero : start.now.toNat = 0 := rfl
  have hbefore := toNat_now_run_of_lt start before (by omega)
  have hbetween := toNat_now_run_of_lt (start.run before) between (by omega)
  rw [UInt64.le_iff_toNat_le, ← UInt64.toNat_inj, hbetween]
  omega

end Clock

/-! ## Reservoirs with a limit -/

namespace Reservoir

open MinMaxHeap (Selection)

variable {π ρ : Type} {reservoir : Reservoir π} {count : Nat} {offered discarded : List (Event π)}

/-- The first event is kept and the second one given up. -/
def KeptOver (step : Transition (Reservoir π) (Event π) ρ) (kept gone : Event π) : Prop :=
  kept ∈ step.state.events ∧ gone ∈ step.discards.map Discard.value

/-- What a reservoir with a limit has given up once it has taken in some events ranks above none
that it keeps. -/
theorem outranked_absorb (h : Selection count reservoir.heap offered discarded) (memory : Memory)
    (events : List (Event π)) :
    ∀ gone ∈ discarded ++ (reservoir.absorb memory events).discards.map Discard.value,
      ∀ kept ∈ (reservoir.absorb memory events).state.events,
        Comparator.greater Event.rank gone kept = false := by
  induction events generalizing reservoir offered discarded with
  | nil =>
    rw [absorb, Transition.quiet, List.map_nil, List.append_nil]
    exact h.outranked
  | cons event later ih =>
    have hoffer := MinMaxHeap.offer_insert h.sound memory event
    have hnext := h.insert memory event
    rw [absorb, answer_offer]
    cases hanswer : (reservoir.heap.insert memory event).answer with
    | error failure => exact absurd hanswer (hoffer.stored h.limit_ne failure)
    | ok outcome =>
      rw [← heap_offer, ← discards_offer] at hnext
      have hlater := ih hnext
      rwa [List.append_assoc, ← List.map_append] at hlater

/-- A reservoir with a limit that is offered an event, or takes over those of a donor, gives up none
that ranks above one that it keeps. -/
theorem not_greater_of_keptOver (hsound : reservoir.heap.Sound)
    (hordered : reservoir.heap.Ordered) (hlimit : reservoir.heap.limit ≠ .unbounded)
    (memory : Memory) {kept gone : Event π} :
    (∀ event, KeptOver (reservoir.add memory event) kept gone →
      Comparator.greater Event.rank gone kept = false) ∧
    ∀ other, KeptOver (reservoir.merge memory other) kept gone →
      Comparator.greater Event.rank gone kept = false := by
  cases hcount : reservoir.heap.limit with
  | unbounded => exact absurd hcount hlimit
  | atMost count =>
    have hselection := hordered.selection hsound hcount
    refine ⟨fun event ⟨hkept, hgone⟩ => ?_, fun other ⟨hkept, hgone⟩ => ?_⟩
    · rw [events, heap_add] at hkept
      rw [discards_add] at hgone
      exact (hselection.insert memory event).outranked gone hgone kept hkept
    · have hcounted : Selection count (reservoir.addCounts other).heap _ [] := hselection
      exact outranked_absorb hcounted memory other.events gone hgone kept hkept

/-- A full reservoir keeps the lowest event that it shows rather than one that ranks no higher. -/
theorem keptOver_of_not_greater {kept gone : Event π} (hfull : reservoir.heap.isFull = true)
    (hlowest : reservoir.lowest? = some kept)
    (hrank : Comparator.greater Event.rank gone kept = false) (memory : Memory) :
    KeptOver (reservoir.add memory gone) kept gone := by
  have hstep := MinMaxHeap.insert_of_not_greater hfull hlowest hrank memory
  constructor
  · rw [events, heap_add, hstep]
    exact MinMaxHeap.mem_of_peek hlowest
  · rw [discards_add, hstep]
    exact List.mem_singleton_self gone

end Reservoir

/-! ## Stamped events -/

namespace Event

variable {π : Type} {p q : Binary64}

/-- Events of equal priority rank by the readings that they were stamped with. -/
theorem rank_stamped_lt_iff (hpriority : p.priorityKey = q.priorityKey) (x y : π)
    (clock other : Clock) :
    rank (stamped p x clock) (stamped q y other) = .lt ↔ clock.now < other.now := by
  rw [rank_eq_lt_iff]
  simp only [stamped, hpriority, Int.lt_irrefl, true_and, false_or]

end Event

namespace Clock

/-- An event is stamped after some actions, and one of equal priority after some more.  The clock
falls back in between if and only if the steps in between, but for whole rounds, carry it past the
end, and then alone the later event ranks lower.  With fewer than 2^64 steps altogether it does not
fall back, and stands still only if there are no steps in between.

A reservoir with a limit, whatever has happened to it, gives up the later event and keeps the
earlier one only if the clock shows no later time for it.  If the reservoir is full and the earlier
event is its lowest one, then an offer of the later event ends like this whenever it can. -/
theorem recency_of_run {π : Type} (before between : List Action) {p q : Binary64}
    (hpriority : p.priorityKey = q.priorityKey) (x y : π) :
    let earlier := start.run before
    let later := earlier.run between
    let old : Event π := .stamped p x earlier
    let new : Event π := .stamped q y later
    (later.now < earlier.now ↔
      UInt64.size ≤ earlier.now.toNat + distance between % UInt64.size) ∧
    (Event.rank new old = .lt ↔ later.now < earlier.now) ∧
    (distance (before ++ between) < UInt64.size →
      earlier.now ≤ later.now ∧ (earlier.now = later.now ↔ distance between = 0)) ∧
    ∀ {history : List (Pool.Command π)} {name : String} {reservoir : Reservoir π},
      (∀ command ∈ history, command.PlacesNew) →
      (Pool.empty.run history).state.reservoir? name = some reservoir →
      reservoir.heap.limit ≠ .unbounded → ∀ memory : Memory,
        (∀ event, Reservoir.KeptOver (reservoir.add memory event) old new →
          later.now ≤ earlier.now) ∧
        (∀ other, Reservoir.KeptOver (reservoir.merge memory other) old new →
          later.now ≤ earlier.now) ∧
        (reservoir.heap.isFull = true → reservoir.lowest? = some old →
          later.now ≤ earlier.now → Reservoir.KeptOver (reservoir.add memory new) old new) := by
  intro earlier later old new
  have hgreater : Comparator.greater Event.rank new old = false ↔ later.now ≤ earlier.now := by
    rw [← Bool.not_eq_true, Comparator.greater_eq_true, Std.OrientedCmp.gt_iff_lt,
      Event.rank_stamped_lt_iff hpriority, UInt64.not_lt]
  have hrank := Event.rank_stamped_lt_iff hpriority.symm y x later earlier
  refine ⟨now_run_lt_iff earlier between, hrank, now_le_run, ?_⟩
  intro history name reservoir hnew hreached hlimit memory
  rw [Pool.reservoir?, Option.map_eq_some_iff] at hreached
  obtain ⟨member, hmember, rfl⟩ := hreached
  have hsound : member.reservoir.heap.Sound :=
    (Pool.orderly_empty.run hnew).sound name member hmember
  have hordered : member.reservoir.heap.Ordered :=
    Pool.allOrdered_empty.run Pool.orderly_empty hnew name member hmember
  obtain ⟨hadd, hmerge⟩ := Reservoir.not_greater_of_keptOver hsound hordered hlimit memory
  refine ⟨fun event hkept => ?_, fun other hkept => ?_, fun hfull hlowest hle => ?_⟩
  · exact hgreater.mp (hadd event hkept)
  · exact hgreater.mp (hmerge other hkept)
  · exact Reservoir.keptOver_of_not_greater hfull hlowest (hgreater.mpr hle) memory

/-- Two zeros are stamped, one step apart.  A full reservoir that has taken in the first takes in
the second for it, unless the step is the one that carries the clock past the end. -/
theorem recency_of_run_ticked :
    ∃ reservoir after : Reservoir Unit,
      let next : Event Unit := .stamped ⟨0x8000000000000000⟩ () ⟨6⟩
      let wrapped : Event Unit := .stamped ⟨0x8000000000000000⟩ () ⟨0⟩
      reservoir.lowest? = some ⟨.zero, 5, ()⟩ ∧
      ¬Reservoir.KeptOver (reservoir.add .ample next) ⟨.zero, 5, ()⟩ next ∧
      after.lowest? = some ⟨.zero, 0xffffffffffffffff, ()⟩ ∧
      Reservoir.KeptOver (after.add .ample wrapped) ⟨.zero, 0xffffffffffffffff, ()⟩ wrapped := by
  let limited : Reservoir Unit := .fresh Config.usualName ⟨#[], 2, .atMost 2, none⟩
  have hlimited : Reservoir.ofCapacity .ample 2 = .ok limited := rfl
  let history (reading : UInt64) : List (Pool.Command Unit) :=
    [.placeLocal "target" limited, .add "target" ⟨.zero, reading, ()⟩,
      .add "target" ⟨⟨0x3ff0000000000000⟩, 0, ()⟩]
  have hnew (reading : UInt64) : ∀ command ∈ history reading, command.PlacesNew := by
    simp only [history, List.forall_mem_cons, Pool.Command.PlacesNew]
    exact ⟨.ofCapacity hlimited, trivial, trivial, List.forall_mem_nil _⟩
  have hreached (reading : UInt64)
      (hfound : ((Pool.empty.run (history reading)).state.reservoir? "target").map
        (fun reservoir => (reservoir.heap.limit, reservoir.heap.isFull, reservoir.lowest?)) =
          some (.atMost 2, true, some ⟨.zero, reading, ()⟩)) :
      ∃ reservoir, (Pool.empty.run (history reading)).state.reservoir? "target" = some reservoir ∧
        reservoir.heap.limit ≠ .unbounded ∧ reservoir.heap.isFull = true ∧
        reservoir.lowest? = some ⟨.zero, reading, ()⟩ := by
    obtain ⟨reservoir, hreservoir, hread⟩ := Option.map_eq_some_iff.mp hfound
    rw [Prod.mk.injEq, Prod.mk.injEq] at hread
    exact ⟨reservoir, hreservoir, hread.1.trans_ne (by decide), hread.2⟩
  have hpriority : Binary64.zero.priorityKey = (⟨0x8000000000000000⟩ : Binary64).priorityKey := by
    decide
  obtain ⟨reservoir, hreservoir, hlimit, -, hlowest⟩ := hreached 5 (by decide +kernel)
  obtain ⟨after, hafter, hlimit', hfull', hlowest'⟩ :=
    hreached 0xffffffffffffffff (by decide +kernel)
  refine ⟨reservoir, after, hlowest, fun hkept => ?_, hlowest', ?_⟩
  · have h := recency_of_run [.advance 5] [.tick, .now] hpriority () ()
    have hle := (h.2.2.2 (hnew 5) hreservoir hlimit .ample).1 _ hkept
    exact absurd hle (by decide)
  · have h := recency_of_run [.advance 0xffffffffffffffff] [.tick] hpriority () ()
    exact (h.2.2.2 (hnew _) hafter hlimit' .ample).2.2 hfull' hlowest' (by decide)

/-- Nothing stops a clock at the end. -/
theorem not_le_of_run :
    ¬∀ before between : List Action,
      (start.run before).now ≤ ((start.run before).run between).now := fun h =>
  absurd (h [.advance 0xffffffffffffffff] [.tick]) (by decide)

end Clock

end PrioritySampling
