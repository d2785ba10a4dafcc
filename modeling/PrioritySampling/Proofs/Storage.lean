import PrioritySampling.Proofs.Contents
/-!
# Storage

`Sound` is the part of a heap's invariant that has nothing to do with order: the values fit into
the slots that have been reserved, a limited heap has reserved exactly its limit, and an
unlimited one at least a chunk.  Every heap that has just been made is sound, and every history
keeps it so, under any comparator and any memory.

For a sound heap `Offer` lists what an insertion can lead to.  There are four outcomes, and in
particular storage is never lacking after an eviction.  `Step` does the same for all operations,
so that whatever holds along every history can be shown by going through its cases.
-/

namespace PrioritySampling

namespace MinMaxHeap

variable {α : Type} {cmp : Comparator α}

/-! ## New heaps -/

/-- A heap that has just been made, with or without a limit, and perhaps given a hook. -/
inductive Made : MinMaxHeap α cmp → Prop
  | unlimited : Made (.empty cmp)
  | limited {memory : Memory} {limit : Limit} {heap : MinMaxHeap α cmp}
      (h : withLimit cmp memory limit = .ok heap) : Made heap
  | hooked {heap : MinMaxHeap α cmp} (h : Made heap) (hook : Hook) : Made (heap.setHook hook)

/-- What a new heap looks like that has been given a limit. -/
theorem eq_of_withLimit {memory : Memory} {limit : Limit} {heap : MinMaxHeap α cmp}
    (h : withLimit cmp memory limit = .ok heap) :
    ∃ slots, initialSlots limit = .ok slots ∧ slots < Memory.ceiling ∧
      heap = ⟨#[], slots, limit, none⟩ := by
  obtain ⟨slots, hslots, h⟩ := Error.exists_of_bind_eq_ok h
  split at h
  · rename_i hreserves
    cases h
    exact ⟨slots, hslots, Memory.lt_ceiling_of_reserves hreserves, rfl⟩
  · cases h

theorem Made.toList_eq_nil {heap : MinMaxHeap α cmp} (h : heap.Made) : heap.toList = [] := by
  induction h with
  | unlimited => rfl
  | limited h =>
    obtain ⟨slots, -, -, rfl⟩ := eq_of_withLimit h
    rfl
  | hooked h hook ih => exact ih

/-! ## Soundness -/

/-- The values fit into the storage, and the storage fits the limit. -/
structure Sound (heap : MinMaxHeap α cmp) : Prop where
  size_le : heap.size ≤ heap.capacity
  capacity_lt : heap.capacity < Memory.ceiling
  chunk_le : heap.limit = .unbounded → chunk ≤ heap.capacity
  two_le : ∀ count, heap.limit = .atMost count → 2 ≤ count
  capacity_eq : ∀ count, heap.limit = .atMost count → heap.capacity = count

theorem chunk_lt_ceiling : chunk < Memory.ceiling := by
  decide

theorem Sound.setHook {heap : MinMaxHeap α cmp} (h : heap.Sound) (hook : Hook) :
    (heap.setHook hook).Sound :=
  ⟨h.size_le, h.capacity_lt, h.chunk_le, h.two_le, h.capacity_eq⟩

theorem Made.sound {heap : MinMaxHeap α cmp} (h : heap.Made) : heap.Sound := by
  induction h with
  | unlimited =>
    exact ⟨Nat.zero_le _, chunk_lt_ceiling, fun _ => Nat.le_refl _, nofun, nofun⟩
  | @limited memory limit heap h =>
    obtain ⟨slots, hslots, hlt, rfl⟩ := eq_of_withLimit h
    cases limit with
    | unbounded =>
      cases hslots
      exact ⟨Nat.zero_le _, hlt, fun _ => Nat.le_refl _, nofun, nofun⟩
    | atMost count =>
      rw [initialSlots] at hslots
      split at hslots
      · cases hslots
      · cases hslots
        refine ⟨Nat.zero_le _, hlt, nofun, ?_, ?_⟩
        · rintro _ ⟨⟩
          omega
        · rintro _ ⟨⟩
          rfl
  | hooked h hook ih => exact ih.setHook hook

variable {heap rest : MinMaxHeap α cmp} {value : α} {memory : Memory}

/-- Fewer values leave a heap sound. -/
theorem Sound.withItems (h : heap.Sound) {items : Array α} (hle : items.size ≤ heap.size) :
    Sound ({ heap with items := items } : MinMaxHeap α cmp) :=
  ⟨Nat.le_trans hle h.size_le, h.capacity_lt, h.chunk_le, h.two_le, h.capacity_eq⟩

theorem Sound.pop {side : Side} (h : heap.Sound) (hpop : heap.pop side = some (value, rest)) :
    rest.Sound := by
  have hsize := size_of_pop hpop
  rw [eq_of_pop hpop]
  exact h.withItems (Nat.le_of_lt (Nat.lt_of_succ_le (Nat.le_of_eq hsize)))

/-- A pop frees a slot. -/
theorem Sound.size_lt_of_pop {side : Side} (h : heap.Sound)
    (hpop : heap.pop side = some (value, rest)) : rest.size < rest.capacity := by
  have hsize := size_of_pop hpop
  have hle := h.size_le
  rw [eq_of_pop hpop] at hsize ⊢
  exact Nat.lt_of_lt_of_le (Nat.lt_of_succ_le (Nat.le_of_eq hsize)) hle

theorem Sound.push (h : heap.Sound) (hlt : heap.size < heap.capacity) : (heap.push value).Sound :=
  ⟨by rw [size_push]; exact hlt, h.capacity_lt, h.chunk_le, h.two_le, h.capacity_eq⟩

/-- A heap has reached its limit if no slot is free. -/
theorem Sound.isFull_iff (h : heap.Sound) :
    heap.isFull = true ↔ heap.limit ≠ .unbounded ∧ heap.size = heap.capacity := by
  have hle := h.size_le
  rw [isFull]
  cases hlimit : heap.limit with
  | unbounded => simp
  | atMost count =>
    have := h.capacity_eq count hlimit
    simp only [decide_eq_true_eq, ne_eq, reduceCtorEq, not_false_eq_true, true_and]
    omega

theorem Sound.size_eq_of_isFull (h : heap.Sound) (hfull : heap.isFull = true) :
    .atMost heap.size = heap.limit := by
  obtain ⟨hlimit, hsize⟩ := h.isFull_iff.mp hfull
  cases hcount : heap.limit with
  | unbounded => exact absurd hcount hlimit
  | atMost count => rw [hsize, h.capacity_eq count hcount]

/-! ## Room for one more value -/

/-- The same heap in storage of another size. -/
def withCapacity (capacity : Nat) (heap : MinMaxHeap α cmp) : MinMaxHeap α cmp :=
  { heap with capacity := capacity }

@[simp]
theorem size_withCapacity (capacity : Nat) (heap : MinMaxHeap α cmp) :
    (heap.withCapacity capacity).size = heap.size :=
  rfl

/-- The slots of a heap once one of them is free: as many as before, or twice as many. -/
inductive Room (memory : Memory) (heap : MinMaxHeap α cmp) : Nat → Prop
  | spare (h : heap.size < heap.capacity) : Room memory heap heap.capacity
  | doubled (hlimit : heap.limit = .unbounded) (hsize : heap.size = heap.capacity)
      (hreserves : memory.reserves (2 * heap.capacity) = true) :
      Room memory heap (2 * heap.capacity)

theorem makeRoom_of_lt (h : heap.size < heap.capacity) : heap.makeRoom memory = .ok heap := by
  rw [makeRoom, if_neg (Nat.ne_of_lt h)]

theorem Sound.makeRoom_of_eq (h : heap.Sound) (hlimit : heap.limit = .unbounded)
    (hsize : heap.size = heap.capacity) :
    heap.makeRoom memory =
      if memory.reserves (2 * heap.capacity) then .ok (heap.withCapacity (2 * heap.capacity))
      else .error (.allocationFailed (2 * heap.capacity)) := by
  have hchunk := h.chunk_le hlimit
  have hmax : max (2 * heap.capacity) chunk = 2 * heap.capacity := by omega
  rw [makeRoom, if_pos hsize, grow, hmax]
  rfl

theorem Room.sound {capacity : Nat} (hroom : Room memory heap capacity) (h : heap.Sound) :
    (heap.withCapacity capacity).Sound ∧ heap.size < capacity := by
  cases hroom with
  | spare hlt => exact ⟨h, hlt⟩
  | doubled hlimit hsize hreserves =>
    have hchunk := h.chunk_le hlimit
    have hlt := Memory.lt_ceiling_of_reserves hreserves
    have hpos : 0 < heap.capacity := Nat.lt_of_lt_of_le (by decide) hchunk
    have hdouble : heap.capacity ≤ 2 * heap.capacity := by omega
    refine ⟨⟨Nat.le_trans h.size_le hdouble, hlt, fun _ => Nat.le_trans hchunk hdouble, h.two_le,
      ?_⟩, by omega⟩
    intro count hcount
    exact absurd (hlimit.symm.trans hcount) nofun

/-! ## Insertion -/

/-- What the offer of a value to a heap can lead to. -/
inductive Offer (memory : Memory) (value : α) (heap : MinMaxHeap α cmp) :
    Transition (MinMaxHeap α cmp) α (Except Error Insertion) → Prop
  | inserted {capacity : Nat} (hfull : heap.isFull = false) (hroom : Room memory heap capacity) :
      Offer memory value heap
        ⟨.ok .inserted, (heap.withCapacity capacity).push value, []⟩
  | refused (hlimit : heap.limit = .unbounded) (hsize : heap.size = heap.capacity)
      (hreserves : memory.reserves (2 * heap.capacity) = false) :
      Offer memory value heap
        ⟨.error (.allocationFailed (2 * heap.capacity)), heap, heap.discard [value]⟩
  | rejected {least : α} (hfull : heap.isFull = true) (hleast : heap.min? = some least)
      (hvalue : cmp.greater value least = false) :
      Offer memory value heap ⟨.ok .rejected, heap, heap.discard [value]⟩
  | replaced {least : α} {rest : MinMaxHeap α cmp} (hfull : heap.isFull = true)
      (hpop : heap.pop .low = some (least, rest)) (hvalue : cmp.greater value least = true) :
      Offer memory value heap ⟨.ok .replaced, rest.push value, heap.discard [least]⟩

theorem store_of_lt {outcome : Insertion} (h : heap.size < heap.capacity) :
    heap.store memory outcome value = ⟨.ok outcome, heap.push value, []⟩ := by
  rw [store, makeRoom_of_lt h]
  rfl

/-- Only an empty heap has nothing to take. -/
theorem exists_pop_of_size_pos (h : 0 < heap.size) (side : Side) :
    ∃ value rest, heap.pop side = some (value, rest) := by
  cases hpop : heap.pop side with
  | some pair => exact ⟨pair.1, pair.2, rfl⟩
  | none =>
    have hempty : heap.size = 0 := congrArg List.length (pop_eq_none_iff.mp hpop)
    omega

/-- A sound heap that is full has a least value. -/
theorem Sound.exists_pop_of_isFull (h : heap.Sound) (hfull : heap.isFull = true) (side : Side) :
    ∃ value rest, heap.pop side = some (value, rest) := by
  refine exists_pop_of_size_pos ?_ side
  obtain ⟨hlimit, hsize⟩ := h.isFull_iff.mp hfull
  cases hcount : heap.limit with
  | unbounded => exact absurd hcount hlimit
  | atMost count =>
    have htwo := h.two_le count hcount
    have hcapacity := h.capacity_eq count hcount
    omega

theorem admits_of_min? {least : α} (h : heap.min? = some least) :
    heap.admits value = cmp.greater value least := by
  rw [admits, ← min?_eq, h]

theorem offer_insert (h : heap.Sound) (memory : Memory) (value : α) :
    Offer memory value heap (heap.insert memory value) := by
  by_cases hfull : heap.isFull = true
  · obtain ⟨least, rest, hpop⟩ := h.exists_pop_of_isFull hfull .low
    have hleast : heap.min? = some least := peek_of_pop hpop
    rw [insert, if_pos hfull, admits_of_min? hleast]
    cases hvalue : cmp.greater value least with
    | false => exact .rejected hfull hleast hvalue
    | true =>
      rw [if_pos rfl, hpop]
      simp only [store_of_lt (h.size_lt_of_pop hpop)]
      exact .replaced hfull hpop hvalue
  · rw [insert, if_neg hfull]
    have hnot := Bool.eq_false_iff.mpr hfull
    rcases Nat.lt_or_eq_of_le h.size_le with hlt | hsize
    · rw [store_of_lt hlt]
      exact .inserted hnot (.spare hlt)
    · have hlimit : heap.limit = .unbounded := by
        by_contra hlimit
        exact hfull (h.isFull_iff.mpr ⟨hlimit, hsize⟩)
      rw [store, h.makeRoom_of_eq hlimit hsize]
      cases hreserves : memory.reserves (2 * heap.capacity) with
      | true => exact .inserted hnot (.doubled hlimit hsize hreserves)
      | false => exact .refused hlimit hsize hreserves

section Offer

variable {step : Transition (MinMaxHeap α cmp) α (Except Error Insertion)}

/-- Whatever an offer leads to, the value and those that were there before are now either
discarded or in the heap. -/
theorem Offer.perm (h : Offer memory value heap step) :
    (value :: heap.toList).Perm (step.discards.map Discard.value ++ step.state.toList) := by
  cases h with
  | inserted hfull hroom => exact (toList_push _ value).symm
  | refused hlimit hsize hreserves =>
    rw [map_value_discard]
    exact .refl _
  | rejected hfull hleast hvalue =>
    rw [map_value_discard]
    exact .refl _
  | @replaced least rest hfull hpop hvalue =>
    rw [map_value_discard]
    calc
      (value :: heap.toList).Perm (value :: least :: rest.toList) := (toList_of_pop hpop).cons value
      _ |>.Perm (least :: value :: rest.toList) := .swap least value rest.toList
      _ |>.Perm (least :: (rest.push value).toList) := (toList_push rest value).symm.cons least

/-- Storage is lacking when a heap without limit has all slots in use and is refused twice as
many. -/
theorem Offer.refusal_of_error {failure : Error} (h : Offer memory value heap step)
    (hanswer : step.answer = .error failure) :
    heap.limit = .unbounded ∧ heap.size = heap.capacity ∧
      memory.reserves (2 * heap.capacity) = false ∧
      failure = .allocationFailed (2 * heap.capacity) := by
  cases h with
  | refused hlimit hsize hreserves =>
    cases hanswer
    exact ⟨hlimit, hsize, hreserves, rfl⟩
  | _ => cases hanswer

/-- It is never lacking for heaps with a limit. -/
theorem Offer.stored (h : Offer memory value heap step) (hlimit : heap.limit ≠ .unbounded)
    (failure : Error) : step.answer ≠ .error failure :=
  fun hanswer => hlimit (h.refusal_of_error hanswer).1

/-- An offer adds one value at most. -/
theorem Offer.size_le (h : Offer memory value heap step) : step.state.size ≤ heap.size + 1 := by
  have hlength := h.perm.length_eq
  have hbefore : heap.toList.length = heap.size := rfl
  have hafter : step.state.toList.length = step.state.size := rfl
  rw [List.length_cons, List.length_append] at hlength
  omega

/-- A heap that is not full discards nothing unless storage is lacking. -/
theorem Offer.discards_eq_nil (h : Offer memory value heap step) (hfull : heap.isFull = false)
    (hstored : ∀ failure, step.answer ≠ .error failure) : step.discards = [] := by
  cases h with
  | inserted hfull hroom => rfl
  | refused hlimit hsize hreserves => exact absurd rfl (hstored _)
  | rejected hfull' hleast hvalue =>
    rw [hfull] at hfull'
    cases hfull'
  | replaced hfull' hpop hvalue =>
    rw [hfull] at hfull'
    cases hfull'

/-- An offer changes neither the limit nor the hook. -/
theorem Offer.unchanged (h : Offer memory value heap step) :
    step.state.limit = heap.limit ∧ step.state.hook = heap.hook := by
  cases h with
  | replaced hfull hpop hvalue =>
    rw [eq_of_pop hpop]
    exact ⟨rfl, rfl⟩
  | _ => exact ⟨rfl, rfl⟩

end Offer

/-! ## Operations -/

/-- What an operation on a heap can lead to.  An offer of several values is a chain of offers. -/
inductive Step :
    MinMaxHeap α cmp → Operation α → Transition (MinMaxHeap α cmp) α (Answer α) → Prop
  | offered {heap : MinMaxHeap α cmp} {memory : Memory} {value : α}
      {first : Transition (MinMaxHeap α cmp) α (Except Error Insertion)}
      (hoffer : Offer memory value heap first) :
      Step heap (.insert memory value) ⟨.offered first.answer, first.state, first.discards⟩
  | exhausted {heap : MinMaxHeap α cmp} {supply : Nat → Memory} :
      Step heap (.extend supply []) (.quiet .done heap)
  | extended {heap : MinMaxHeap α cmp} {supply : Nat → Memory} {value : α} {later : List α}
      {first : Transition (MinMaxHeap α cmp) α (Except Error Insertion)}
      {rest : Transition (MinMaxHeap α cmp) α (Answer α)}
      (hoffer : Offer (supply 0) value heap first)
      (hrest : Step first.state (.extend (fun k => supply (k + 1)) later) rest) :
      Step heap (.extend supply (value :: later)) (rest.after first.discards)
  | popped {heap rest : MinMaxHeap α cmp} {side : Side} {value : α}
      (hpop : heap.pop side = some (value, rest)) :
      Step heap (.pop side) (.quiet (.taken (some value)) rest)
  | missed {heap : MinMaxHeap α cmp} {side : Side} (hpop : heap.pop side = none) :
      Step heap (.pop side) (.quiet (.taken none) heap)
  | drained {heap : MinMaxHeap α cmp} {values : List α} (hperm : values.Perm heap.toList) :
      Step heap .drainDescending (.quiet (.drained values) { heap with items := #[] })
  | cleared {heap : MinMaxHeap α cmp} :
      Step heap .clear ⟨.done, { heap with items := #[] }, heap.discard heap.toList⟩
  | hooked {heap : MinMaxHeap α cmp} {hook : Hook} :
      Step heap (.setHook hook) (.quiet .done (heap.setHook hook))
  | unhooked {heap : MinMaxHeap α cmp} : Step heap .clearHook (.quiet .done heap.clearHook)

theorem Sound.offer {step : Transition (MinMaxHeap α cmp) α (Except Error Insertion)}
    (h : heap.Sound) (hoffer : Offer memory value heap step) : step.state.Sound := by
  cases hoffer with
  | inserted hfull hroom =>
    obtain ⟨hsound, hlt⟩ := hroom.sound h
    exact hsound.push hlt
  | refused hlimit hsize hreserves => exact h
  | rejected hfull hleast hvalue => exact h
  | replaced hfull hpop hvalue => exact (h.pop hpop).push (h.size_lt_of_pop hpop)

theorem step_extend (h : heap.Sound) (supply : Nat → Memory) (values : List α) :
    Step heap (.extend supply values) (heap.apply (.extend supply values)) := by
  induction values generalizing heap supply with
  | nil => exact .exhausted
  | cons value later ih =>
    have hoffer := offer_insert h (supply 0) value
    exact .extended hoffer (ih (h.offer hoffer) fun k => supply (k + 1))

theorem step_apply (h : heap.Sound) (operation : Operation α) :
    Step heap operation (heap.apply operation) := by
  cases operation with
  | insert memory value => exact .offered (offer_insert h memory value)
  | extend supply values => exact step_extend h supply values
  | pop side =>
    rw [apply]
    split
    · rename_i hpop
      exact .popped hpop
    · rename_i hpop
      exact .missed hpop
  | drainDescending =>
    obtain ⟨hperm, hrest⟩ := drain_spec .high heap
    rw [apply]
    simp only [hrest]
    exact .drained hperm
  | clear => exact .cleared
  | setHook hook => exact .hooked
  | clearHook => exact .unhooked

theorem Sound.step {operation : Operation α} {step : Transition (MinMaxHeap α cmp) α (Answer α)}
    (h : heap.Sound) (hstep : Step heap operation step) : step.state.Sound := by
  induction hstep with
  | offered hoffer => exact h.offer hoffer
  | exhausted => exact h
  | extended hoffer hrest ih => exact ih (h.offer hoffer)
  | popped hpop => exact h.pop hpop
  | missed hpop => exact h
  | drained hperm => exact h.withItems (Nat.zero_le _)
  | cleared => exact h.withItems (Nat.zero_le _)
  | hooked => exact h.setHook _
  | unhooked => exact ⟨h.size_le, h.capacity_lt, h.chunk_le, h.two_le, h.capacity_eq⟩

/-! ## Histories -/

theorem Sound.apply (h : heap.Sound) (operation : Operation α) :
    (heap.apply operation).state.Sound :=
  h.step (step_apply h operation)

theorem Sound.run (h : heap.Sound) (history : List (Operation α)) :
    (heap.run history).state.Sound := by
  induction history generalizing heap with
  | nil => exact h
  | cons operation later ih => exact ih (h.apply operation)

end MinMaxHeap

end PrioritySampling
