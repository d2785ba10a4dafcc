import Mathlib.Algebra.Group.Nat.Defs
import Mathlib.Data.Set.Operations
import Mathlib.Order.Bounds.Defs
import PrioritySampling.Proofs.Disposal
/-!
# How storage grows

A heap with a limit has all the slots it will ever need, because each value that it stores has a
free slot: either the limit has not been reached, or a pop has just freed one.  It never asks the
memory for anything.

A heap without limit asks for twice its storage when all slots are in use, and never gives any
back.  Its storage therefore tells how full it has been: it is the least that repeated doubling
could have made of the first chunk to hold as many values as there ever were at one time.  What
carries the induction is this law with the peak so far; a refused request leaves both as they are,
and a granted one doubles the storage at the very moment when the peak passes it.
-/

namespace PrioritySampling

namespace MinMaxHeap

variable {α : Type} {cmp : Comparator α} {heap : MinMaxHeap α cmp}

/-! ## Limits -/

theorem Step.limit_eq {operation : Operation α}
    {step : Transition (MinMaxHeap α cmp) α (Answer α)} (h : Step heap operation step) :
    step.state.limit = heap.limit := by
  induction h with
  | offered hoffer => exact hoffer.unchanged.1
  | extended hoffer hrest ih => exact ih.trans hoffer.unchanged.1
  | popped hpop => rw [eq_of_pop hpop]; rfl
  | _ => rfl

theorem Sound.limit_run (h : heap.Sound) (history : List (Operation α)) :
    (heap.run history).state.limit = heap.limit := by
  induction history generalizing heap with
  | nil => rfl
  | cons operation later ih =>
    exact (ih (h.apply operation)).trans (step_apply h operation).limit_eq

/-- A limited heap that has not reached its limit has a slot free. -/
theorem Sound.size_lt_of_limited (h : heap.Sound) (hlimit : heap.limit ≠ .unbounded)
    (hfull : heap.isFull = false) : heap.size < heap.capacity := by
  refine Nat.lt_of_le_of_ne h.size_le fun hsize => ?_
  rw [h.isFull_iff.mpr ⟨hlimit, hsize⟩] at hfull
  cases hfull

/-- What a limited heap does with a value is the same in every memory, and never an error. -/
theorem Sound.exists_insert_of_limited (h : heap.Sound) (hlimit : heap.limit ≠ .unbounded)
    (value : α) :
    ∃ outcome after discards, ∀ memory : Memory,
      heap.insert memory value = ⟨.ok outcome, after, discards⟩ := by
  cases hfull : heap.isFull with
  | false =>
    refine ⟨.inserted, heap.push value, [], fun memory => ?_⟩
    rw [insert, if_neg (Bool.eq_false_iff.mp hfull),
      store_of_lt (h.size_lt_of_limited hlimit hfull)]
  | true =>
    obtain ⟨least, rest, hpop⟩ := h.exists_pop_of_isFull hfull .low
    cases hadmits : heap.admits value with
    | false =>
      refine ⟨.rejected, heap, heap.discard [value], fun memory => ?_⟩
      rw [insert, if_pos hfull, if_neg (Bool.eq_false_iff.mp hadmits)]
    | true =>
      refine ⟨.replaced, rest.push value, heap.discard [least], fun memory => ?_⟩
      rw [insert, if_pos hfull, if_pos hadmits, hpop]
      simp only [store_of_lt (h.size_lt_of_pop hpop)]
      rfl

/-! ## Peaks -/

/-- The greatest number of values that a heap holds at one time in the course of a history. -/
def peak (heap : MinMaxHeap α cmp) : List (Operation α) → Nat
  | [] => heap.size
  | operation :: later => max heap.size ((heap.apply operation).state.peak later)

theorem size_le_peak (heap : MinMaxHeap α cmp) (history : List (Operation α)) :
    heap.size ≤ heap.peak history := by
  cases history with
  | nil => exact Nat.le_refl _
  | cons operation later => exact Nat.le_max_left _ _

/-- The peak is the size after some of the first operations, and no such size is greater. -/
theorem isGreatest_peak (heap : MinMaxHeap α cmp) (history : List (Operation α)) :
    IsGreatest (Set.range fun n => (heap.run (history.take n)).state.size)
      (heap.peak history) := by
  induction history generalizing heap with
  | nil =>
    refine ⟨⟨0, rfl⟩, ?_⟩
    rintro _ ⟨n, rfl⟩
    simp only [List.take_nil]
    exact Nat.le_refl _
  | cons operation later ih =>
    obtain ⟨⟨n, hn⟩, hle⟩ := ih (heap.apply operation).state
    constructor
    · rcases Nat.le_total heap.size ((heap.apply operation).state.peak later) with hpeak | hpeak
      · exact ⟨n + 1, hn.trans (Nat.max_eq_right hpeak).symm⟩
      · exact ⟨0, (Nat.max_eq_left hpeak).symm⟩
    · rintro _ ⟨n, rfl⟩
      cases n with
      | zero => exact Nat.le_max_left _ _
      | succ n => exact Nat.le_trans (hle ⟨n, rfl⟩) (Nat.le_max_right _ _)

/-! ## Storage that doubles -/

/-- The numbers of slots for so many values that the first chunk can be doubled to. -/
def slotsFor (count : Nat) : Set Nat :=
  {slots | (∃ k, slots = chunk * 2 ^ k) ∧ count ≤ slots}

section Slots

variable {count count' capacity : Nat}

theorem isLeast_chunk : IsLeast (slotsFor 0) chunk := by
  refine ⟨⟨⟨0, rfl⟩, Nat.zero_le _⟩, ?_⟩
  rintro _ ⟨⟨k, rfl⟩, -⟩
  exact Nat.le_mul_of_pos_right chunk (Nat.two_pow_pos k)

/-- Storage stays the least for as many values as fit into it. -/
theorem isLeast_slotsFor_of_le (h : IsLeast (slotsFor count) capacity) (hcount : count ≤ count')
    (hfits : count' ≤ capacity) : IsLeast (slotsFor count') capacity := by
  obtain ⟨⟨hform, -⟩, hleast⟩ := h
  refine ⟨⟨hform, hfits⟩, ?_⟩
  rintro slots ⟨hslots, hcount'⟩
  exact hleast ⟨hslots, Nat.le_trans hcount hcount'⟩

/-- One value more than fits calls for twice the storage and not for more. -/
theorem isLeast_slotsFor_double (h : IsLeast (slotsFor count) capacity) :
    IsLeast (slotsFor (capacity + 1)) (2 * capacity) := by
  obtain ⟨⟨⟨k, rfl⟩, -⟩, -⟩ := h
  have hpos : 0 < chunk * 2 ^ k := Nat.mul_pos (by decide) (Nat.two_pow_pos k)
  refine ⟨⟨⟨k + 1, ?_⟩, by omega⟩, ?_⟩
  · rw [Nat.pow_succ]
    ac_rfl
  · rintro _ ⟨⟨j, rfl⟩, hlt⟩
    have hexponent : k < j := by
      refine (Nat.pow_lt_pow_iff_right (by decide)).mp (Nat.lt_of_mul_lt_mul_left hlt)
    calc
      2 * (chunk * 2 ^ k) = chunk * 2 ^ (k + 1) := by rw [Nat.pow_succ]; ac_rfl
      _ ≤ chunk * 2 ^ j := Nat.mul_le_mul_left chunk (Nat.pow_le_pow_right (by decide) hexponent)

end Slots

/-! ## Storage and peak -/

theorem Made.capacity_eq_chunk {start : MinMaxHeap α cmp} (h : start.Made)
    (hlimit : start.limit = .unbounded) : start.capacity = chunk := by
  induction h with
  | unlimited => rfl
  | limited h =>
    obtain ⟨slots, hslots, -, rfl⟩ := eq_of_withLimit h
    cases hlimit
    cases hslots
    rfl
  | hooked h hook ih => exact ih hlimit

/-- The storage is the least that doubling could have led to for so many values, which the heap
does not exceed. -/
structure Tight (peak : Nat) (heap : MinMaxHeap α cmp) : Prop where
  size_le : heap.size ≤ peak
  isLeast : IsLeast (slotsFor peak) heap.capacity

section Step

variable {rest : MinMaxHeap α cmp} {peak : Nat}

/-- Fewer values in the same storage change nothing. -/
theorem Tight.of_size_le (h : Tight peak heap) (hsize : rest.size ≤ heap.size)
    (hcapacity : rest.capacity = heap.capacity) : Tight (max peak rest.size) rest := by
  rw [Nat.max_eq_left (Nat.le_trans hsize h.size_le)]
  exact ⟨Nat.le_trans hsize h.size_le, hcapacity ▸ h.isLeast⟩

theorem Tight.offer {memory : Memory} {value : α}
    {step : Transition (MinMaxHeap α cmp) α (Except Error Insertion)} (h : Tight peak heap)
    (hlimit : heap.limit = .unbounded) (hoffer : Offer memory value heap step) :
    Tight (max peak step.state.size) step.state := by
  have hfits : peak ≤ heap.capacity := h.isLeast.1.2
  cases hoffer with
  | @inserted capacity hfull hroom =>
    refine ⟨Nat.le_max_right _ _, ?_⟩
    rw [size_push, size_withCapacity]
    cases hroom with
    | spare hlt =>
      exact isLeast_slotsFor_of_le h.isLeast (Nat.le_max_left _ _) (Nat.max_le.mpr ⟨hfits, hlt⟩)
    | doubled hlimit hsize hreserves =>
      -- All slots are in use, so the new value is what makes the peak pass the storage.
      rw [hsize, Nat.max_eq_right (Nat.le_succ_of_le hfits)]
      exact isLeast_slotsFor_double h.isLeast
  | refused hlimit hsize hreserves => exact h.of_size_le (Nat.le_refl _) rfl
  | rejected hfull | replaced hfull =>
    rw [isFull, hlimit] at hfull
    cases hfull

theorem Tight.step {operation : Operation α} {step : Transition (MinMaxHeap α cmp) α (Answer α)}
    (h : Tight peak heap) (hlimit : heap.limit = .unbounded) (hstep : Step heap operation step)
    (hsingle : operation.singly = [operation]) : Tight (max peak step.state.size) step.state := by
  cases hstep with
  | offered hoffer => exact h.offer hlimit hoffer
  | exhausted => cases hsingle
  | extended =>
    rw [Operation.singly, List.mapIdx_cons] at hsingle
    cases hsingle
  | popped hpop =>
    have hsize := size_of_pop hpop
    refine h.of_size_le (Nat.le_of_succ_le (Nat.le_of_eq hsize)) ?_
    rw [eq_of_pop hpop]
    rfl
  | missed | hooked | unhooked => exact h.of_size_le (Nat.le_refl _) rfl
  | drained | cleared => exact h.of_size_le (Nat.zero_le _) rfl

/-- A history of single steps. -/
theorem Tight.run_steps (h : Tight peak heap) (hsound : heap.Sound)
    (hlimit : heap.limit = .unbounded) {steps : List (Operation α)}
    (hsingle : ∀ step ∈ steps, step.singly = [step]) :
    Tight (max peak (heap.peak steps)) (heap.run steps).state := by
  induction steps generalizing heap peak with
  | nil =>
    rw [MinMaxHeap.peak, Nat.max_eq_left h.size_le]
    exact h
  | cons step later ih =>
    have hstep := step_apply hsound step
    have hnext := h.step hlimit hstep (hsingle step List.mem_cons_self)
    have hlater := ih hnext (hsound.step hstep) (hstep.limit_eq.trans hlimit)
      fun other hother => hsingle other (List.mem_cons_of_mem step hother)
    have hsize := h.size_le
    have hle := size_le_peak (heap.apply step).state later
    -- The size after the first step is not above the peak of the steps that follow it.
    have hmax : max (max peak (heap.apply step).state.size) ((heap.apply step).state.peak later) =
        max peak (heap.peak (step :: later)) := by
      rw [MinMaxHeap.peak]
      omega
    rw [hmax] at hlater
    exact hlater

theorem Tight.run (h : Tight peak heap) (hsound : heap.Sound) (hlimit : heap.limit = .unbounded)
    (history : List (Operation α)) :
    Tight (max peak (heap.peak (history.flatMap Operation.singly))) (heap.run history).state := by
  rw [← (run_flatMap_singly heap history).state_eq]
  exact h.run_steps hsound hlimit fun _ => Operation.singly_of_mem_flatMap_singly

theorem Made.tight {start : MinMaxHeap α cmp} (h : start.Made) (hlimit : start.limit = .unbounded) :
    Tight start.size start := by
  have hsize : start.size = 0 := congrArg List.length h.toList_eq_nil
  refine ⟨Nat.le_refl _, ?_⟩
  rw [hsize, h.capacity_eq_chunk hlimit]
  exact isLeast_chunk

end Step

/-! ## Every history -/

/-- A heap with a limit has as many slots as the limit says, whatever has happened to it, and one
of them is free when it stores a value, also when a pop has only just made room.  What becomes of
a value there is the same in every memory and never an error.

A heap without limit has at all times the least storage that doubling could have led to for the
greatest number of values that it ever held at one time, several values offered at once being
stored one by one.  It never gives up storage, whatever happens to it later. -/
theorem storage_of_run {start : MinMaxHeap α cmp} (hstart : start.Made)
    (history : List (Operation α)) :
    let heap := (start.run history).state
    let steps := history.flatMap Operation.singly
    (∀ count, start.limit = .atMost count →
      2 ≤ count ∧ heap.capacity = count ∧ heap.size ≤ count ∧
      (heap.isFull = false → heap.size < heap.capacity) ∧
      (∀ least rest, heap.pop .low = some (least, rest) → rest.size < rest.capacity) ∧
      ∀ value, ∃ outcome after discards, ∀ memory : Memory,
        heap.insert memory value = ⟨.ok outcome, after, discards⟩) ∧
    (start.limit = .unbounded →
      heap.size ≤ heap.capacity ∧ (start.run steps).state = heap ∧
      IsGreatest (Set.range fun n => (start.run (steps.take n)).state.size) (start.peak steps) ∧
      IsLeast {slots | (∃ k, slots = chunk * 2 ^ k) ∧ start.peak steps ≤ slots} heap.capacity ∧
      ∀ later : List (Operation α), heap.capacity ≤ (heap.run later).state.capacity) := by
  intro heap steps
  have hsound : heap.Sound := hstart.sound.run history
  have hkeeps : heap.limit = start.limit := hstart.sound.limit_run history
  constructor
  · intro count hcount
    have hlimit : heap.limit = .atMost count := hkeeps.trans hcount
    have hlimited : heap.limit ≠ .unbounded := by
      rw [hlimit]
      exact nofun
    have hcapacity := hsound.capacity_eq count hlimit
    exact ⟨hsound.two_le count hlimit, hcapacity, hcapacity ▸ hsound.size_le,
      hsound.size_lt_of_limited hlimited, fun _ _ => hsound.size_lt_of_pop,
      hsound.exists_insert_of_limited hlimited⟩
  · intro hlimit
    have hunlimited : heap.limit = .unbounded := hkeeps.trans hlimit
    have htight : Tight (start.peak steps) heap := by
      have hrun := (hstart.tight hlimit).run hstart.sound hlimit history
      rwa [Nat.max_eq_right (size_le_peak start steps)] at hrun
    refine ⟨hsound.size_le, (run_flatMap_singly start history).state_eq,
      isGreatest_peak start steps, htight.isLeast, fun later => ?_⟩
    obtain ⟨hform, hpeak⟩ := (htight.run hsound hunlimited later).isLeast.1
    exact htight.isLeast.2 ⟨hform, Nat.le_trans (Nat.le_max_left _ _) hpeak⟩

theorem storage_of_run_drained :
    ∃ heap limited : MinMaxHeap Nat compare,
      heap.size = 0 ∧ heap.capacity = 16 ∧
      IsLeast {slots | (∃ k, slots = chunk * 2 ^ k) ∧ 10 ≤ slots} heap.capacity ∧
      limited.size = 3 ∧ limited.capacity = 3 ∧
      ∃ outcome after discards, ∀ memory : Memory,
        limited.insert memory 4 = ⟨.ok outcome, after, discards⟩ := by
  let history : List (Operation Nat) :=
    [.extend (fun _ => .upTo 8) [5, 3, 8, 1, 9, 2, 7, 4, 6], .pop .low,
      .extend (fun _ => .upTo 16) [10, 11, 12], .drainDescending]
  obtain ⟨-, -, -, hleast, -⟩ :=
    (storage_of_run (.unlimited : Made (empty (compare : Comparator Nat))) history).2 rfl
  have hpeak : (empty (compare : Comparator Nat)).peak (history.flatMap Operation.singly) = 10 := by
    decide +kernel
  rw [hpeak] at hleast
  have hlimited : withLimit (compare : Comparator Nat) .ample (.atMost 3) =
      .ok ⟨#[], 3, .atMost 3, none⟩ := rfl
  obtain ⟨-, hcapacity, -, -, -, hinsert⟩ :=
    (storage_of_run (.limited hlimited) [.extend (fun _ => .upTo 0) [5, 1, 7, 2]]).1 3 rfl
  exact ⟨_, _, by decide +kernel, by decide +kernel, hleast, by decide +kernel, hcapacity,
    hinsert 4⟩

end MinMaxHeap

end PrioritySampling
