import PrioritySampling.Proofs.Disposal
import PrioritySampling.Proofs.Guarded
/-!
# Safety under any comparator

A comparator may answer as it likes: inconsistently, in a circle, or always the same.  The order
of the values is lost then, but nothing else is.  Whatever is computed on the way fits into words
and lies within the array, every loop ends, and the values are those that there were before, plus
those that came in and minus those that went out.

The operations of a heap are taken on guard here, on top of the sifting on guard.  A heap whose
storage has been granted has fewer slots than memory has room for, so that its values can be
addressed with two bits to spare, which is `Sound` and nothing more.
-/

namespace PrioritySampling

namespace Guarded

variable {α : Type} {cmp : Comparator α}

/-! ## Operations on guard -/

/-- Takes the extreme value on one side. -/
def pop (side : Side) (heap : MinMaxHeap α cmp) : Option (Option (α × MinMaxHeap α cmp)) := do
  match ← extreme cmp heap.items side with
  | none => return none
  | some node =>
    let (value, rest) ← removeAt cmp heap.items node
    return some (value, { heap with items := rest })

/-- Takes values until there are none, in a given number of rounds at most. -/
def drain (side : Side) : Nat → MinMaxHeap α cmp → Option (List α × MinMaxHeap α cmp)
  | 0, _ => none
  | rounds + 1, heap => do
    match ← pop side heap with
    | none => return ([], heap)
    | some (value, rest) =>
      let (values, last) ← drain side rounds rest
      return (value :: values, last)

/-- Enlarges storage to twice its size, which has to fit into a word.  What is asked for are the
slots beyond those in use. -/
def grow (memory : Memory) (heap : MinMaxHeap α cmp) :
    Option (Except Error (MinMaxHeap α cmp)) := do
  let slots := max (← mul heap.capacity 2) MinMaxHeap.chunk
  let additional ← sub slots heap.size
  if memory.reserves (← add heap.size additional) then
    return .ok { heap with capacity := slots }
  else
    return .error (.allocationFailed slots)

/-- Grows full storage. -/
def makeRoom (memory : Memory) (heap : MinMaxHeap α cmp) :
    Option (Except Error (MinMaxHeap α cmp)) :=
  if heap.size = heap.capacity then grow memory heap else some (.ok heap)

/-- Stores a value in the next slot and moves it up to where it belongs. -/
def push (value : α) (heap : MinMaxHeap α cmp) : Option (MinMaxHeap α cmp) := do
  let items ← siftUp cmp (heap.items.push value) (← add heap.size 1)
  return { heap with items := items }

/-- Stores a value if there is room for it. -/
def store (memory : Memory) (outcome : Insertion) (value : α) (heap : MinMaxHeap α cmp) :
    Option (Transition (MinMaxHeap α cmp) α (Except Error Insertion)) := do
  match ← makeRoom memory heap with
  | .ok roomy => return .quiet (.ok outcome) (← push value roomy)
  | .error failure => return ⟨.error failure, heap, heap.discard [value]⟩

/-- Offers a value to the heap. -/
def insert (memory : Memory) (value : α) (heap : MinMaxHeap α cmp) :
    Option (Transition (MinMaxHeap α cmp) α (Except Error Insertion)) := do
  if heap.isFull then
    if heap.admits value then
      match ← pop .low heap with
      | some (evicted, rest) =>
        return (← store memory .replaced value rest).after (heap.discard [evicted])
      | none => store memory .replaced value heap
    else
      return ⟨.ok .rejected, heap, heap.discard [value]⟩
  else
    store memory .inserted value heap

/-- Offers values one after another. -/
def extend (supply : Nat → Memory) (values : List α) (heap : MinMaxHeap α cmp) :
    Option (Transition (MinMaxHeap α cmp) α Unit) :=
  match values with
  | [] => some (.quiet () heap)
  | value :: later => do
    let step ← insert (supply 0) value heap
    return (← extend (fun k => supply (k + 1)) later step.state).after step.discards

/-- Carries out one operation. -/
def apply (heap : MinMaxHeap α cmp) :
    MinMaxHeap.Operation α → Option (Transition (MinMaxHeap α cmp) α (MinMaxHeap.Answer α))
  | .insert memory value => do
    let step ← insert memory value heap
    return ⟨.offered step.answer, step.state, step.discards⟩
  | .extend supply values => do
    let step ← extend supply values heap
    return ⟨.done, step.state, step.discards⟩
  | .pop side => do
    match ← pop side heap with
    | some (value, rest) => return .quiet (.taken (some value)) rest
    | none => return .quiet (.taken none) heap
  | .drainDescending => do
    let (values, rest) ← drain .high (heap.size + 1) heap
    return .quiet (.drained values) rest
  | .clear => some ⟨.done, heap.clear.state, heap.clear.discards⟩
  | .setHook hook => some (.quiet .done (heap.setHook hook))
  | .clearHook => some (.quiet .done heap.clearHook)

/-- Carries out a history. -/
def run (heap : MinMaxHeap α cmp) :
    List (MinMaxHeap.Operation α) →
      Option (Transition (MinMaxHeap α cmp) α (List (MinMaxHeap.Answer α)))
  | [] => some (.quiet [] heap)
  | operation :: later => do
    let step ← apply heap operation
    let rest ← run step.state later
    return ⟨step.answer :: rest.answer, rest.state, step.discards ++ rest.discards⟩

/-- The values from the least to the greatest. -/
def toSorted (heap : MinMaxHeap α cmp) : Option (List α) := do
  let (values, _) ← drain .low (heap.size + 1) heap
  return values

/-! ## Guards hold -/

section Guards

variable {heap : MinMaxHeap α cmp}

theorem pop_eq (h : addressable heap.size) (side : Side) :
    pop side heap = some (heap.pop side) := by
  have hextreme : extreme cmp heap.items side =
      some ((MinMaxHeap.extreme cmp heap.items.toVector side).map Place.node) :=
    extreme_eq cmp heap.items.toVector side
  rw [pop, hextreme, MinMaxHeap.pop]
  cases MinMaxHeap.extreme cmp heap.items.toVector side with
  | none => rfl
  | some place =>
    have hremove : removeAt cmp heap.items place.node =
        some (heap.items.toVector.get place.slot,
          (MinMaxHeap.removeAt cmp heap.items.toVector place).toArray) :=
      removeAt_eq cmp h heap.items.toVector place
    simp only [Option.map_some, Option.bind_eq_bind, Option.bind_some, hremove]
    rfl

/-- A drain ends in one round more than there are values. -/
theorem drain_eq {k : Nat} (h : addressable heap.size) (side : Side) (hk : heap.size < k) :
    drain side k heap = some (heap.drain side) := by
  obtain ⟨k, rfl⟩ := Nat.exists_eq_add_one_of_ne_zero (Nat.ne_zero_of_lt hk)
  fun_induction MinMaxHeap.drain side heap generalizing k with
  | case1 heap hnone =>
    rw [drain, pop_eq h, hnone]
    rfl
  | case2 heap value rest hsome hlt values last hdrain ih =>
    have hrest : addressable rest.size := by
      rw [addressable] at h ⊢
      omega
    obtain ⟨k, rfl⟩ : ∃ j, k = j + 1 := ⟨k - 1, by omega⟩
    rw [drain, pop_eq h, hsome]
    simp only [Option.bind_eq_bind, Option.bind_some, ih hrest k (by omega), hdrain]
    rfl

/-- Memory has room for so few slots that their nodes have two bits to spare. -/
theorem addressable_of_le {count : Nat} (h : count ≤ Memory.ceiling) : addressable count := by
  have hspare : 4 * Memory.ceiling + 3 < UInt64.size := by decide
  rw [addressable]
  omega

theorem addressable_of_sound (h : heap.Sound) : addressable heap.size :=
  addressable_of_le (Nat.le_of_lt (Nat.lt_of_le_of_lt h.size_le h.capacity_lt))

theorem grow_eq (h : heap.Sound) (memory : Memory) :
    grow memory heap = some (heap.grow memory) := by
  have hsize := h.size_le
  have hcapacity := h.capacity_lt
  have hceiling : 2 * Memory.ceiling < UInt64.size := by decide
  have hmul : mul heap.capacity 2 = some (2 * heap.capacity) := by
    rw [mul, Nat.mul_comm]
    exact word_eq (by omega)
  have hle : heap.size ≤ max (2 * heap.capacity) MinMaxHeap.chunk := by omega
  have hadd : add heap.size (max (2 * heap.capacity) MinMaxHeap.chunk - heap.size) =
      some (max (2 * heap.capacity) MinMaxHeap.chunk) := by
    have hchunk : MinMaxHeap.chunk < UInt64.size := by decide
    rw [add, Nat.add_sub_cancel' hle]
    exact word_eq (by omega)
  rw [grow, hmul]
  simp only [Option.bind_eq_bind, Option.bind_some, sub_eq hle, hadd, MinMaxHeap.grow]
  split
  · rfl
  · rfl

theorem makeRoom_eq (h : heap.Sound) (memory : Memory) :
    makeRoom memory heap = some (heap.makeRoom memory) := by
  rw [makeRoom, MinMaxHeap.makeRoom]
  split
  · exact grow_eq h memory
  · rfl

/-- Room takes nothing away. -/
theorem size_of_makeRoom {memory : Memory} {roomy : MinMaxHeap α cmp}
    (h : heap.makeRoom memory = .ok roomy) : roomy.size = heap.size := by
  rw [MinMaxHeap.makeRoom, MinMaxHeap.grow] at h
  split at h
  · split at h
    · cases h
      rfl
    · cases h
  · cases h
    rfl

theorem push_eq (h : heap.size < Memory.ceiling) (value : α) :
    push value heap = some (heap.push value) := by
  have hlast : addressable (heap.items.size + 1) := addressable_of_le h
  have hceiling : Memory.ceiling < UInt64.size := by decide
  have hadd : add heap.size 1 = some (heap.size + 1) := word_eq (by omega)
  have hsift := siftUp_eq cmp hlast (heap.items.toVector.push value)
    ⟨heap.items.size + 1, Nat.le_add_left 1 _, Nat.le_refl _⟩
  have hsift' : siftUp cmp (heap.items.push value) (heap.size + 1) = _ := hsift
  rw [push, hadd]
  simp only [Option.bind_eq_bind, Option.bind_some, hsift']
  rfl

theorem store_eq (h : heap.Sound) (memory : Memory) (outcome : Insertion) (value : α) :
    store memory outcome value heap = some (heap.store memory outcome value) := by
  rw [store, makeRoom_eq h, MinMaxHeap.store]
  cases hroom : heap.makeRoom memory with
  | error failure => rfl
  | ok roomy =>
    have hlt : roomy.size < Memory.ceiling := by
      rw [size_of_makeRoom hroom]
      exact Nat.lt_of_le_of_lt h.size_le h.capacity_lt
    simp only [Option.bind_eq_bind, Option.bind_some, push_eq hlt]
    rfl

theorem insert_eq (h : heap.Sound) (memory : Memory) (value : α) :
    insert memory value heap = some (heap.insert memory value) := by
  rw [insert, MinMaxHeap.insert]
  split
  · split
    · rw [pop_eq (addressable_of_sound h)]
      cases hpop : heap.pop .low with
      | none => exact store_eq h memory .replaced value
      | some taken =>
        obtain ⟨evicted, rest⟩ := taken
        simp only [Option.bind_eq_bind, Option.bind_some, store_eq (h.pop hpop)]
        rfl
    · rfl
  · exact store_eq h memory .inserted value

theorem extend_eq (h : heap.Sound) (supply : Nat → Memory) (values : List α) :
    extend supply values heap = some (heap.extend supply values) := by
  induction values generalizing heap supply with
  | nil => rfl
  | cons value later ih =>
    have hstep := h.offer (MinMaxHeap.offer_insert h (supply 0) value)
    rw [extend, insert_eq h]
    simp only [Option.bind_eq_bind, Option.bind_some, ih hstep]
    rfl

theorem apply_eq (h : heap.Sound) (operation : MinMaxHeap.Operation α) :
    apply heap operation = some (heap.apply operation) := by
  cases operation with
  | insert memory value =>
    rw [apply, insert_eq h]
    rfl
  | extend supply values =>
    rw [apply, extend_eq h]
    rfl
  | pop side =>
    rw [apply, pop_eq (addressable_of_sound h), MinMaxHeap.apply]
    cases heap.pop side <;> rfl
  | drainDescending =>
    rw [apply, drain_eq (addressable_of_sound h) _ (Nat.lt_succ_self _)]
    rfl
  | clear | setHook hook | clearHook => rfl

theorem run_eq (h : heap.Sound) (history : List (MinMaxHeap.Operation α)) :
    run heap history = some (heap.run history) := by
  induction history generalizing heap with
  | nil => rfl
  | cons operation later ih =>
    rw [run, apply_eq h]
    simp only [Option.bind_eq_bind, Option.bind_some, ih (h.apply operation)]
    rfl

theorem toSorted_eq (h : heap.Sound) : toSorted heap = some heap.toSorted := by
  rw [toSorted, drain_eq (addressable_of_sound h) _ (Nat.lt_succ_self _)]
  rfl

end Guards

end Guarded

namespace MinMaxHeap

variable {α : Type} {cmp : Comparator α}

/-! ## Lengths -/

/-- How an operation with a given answer changes the number of values. -/
inductive Resizes : Nat → Operation α → Answer α → Nat → Prop
  | inserted {size : Nat} {memory : Memory} {value : α} :
      Resizes size (.insert memory value) (.offered (.ok .inserted)) (size + 1)
  /-- One value comes and one goes. -/
  | replaced {size : Nat} {memory : Memory} {value : α} :
      Resizes size (.insert memory value) (.offered (.ok .replaced)) size
  | rejected {size : Nat} {memory : Memory} {value : α} :
      Resizes size (.insert memory value) (.offered (.ok .rejected)) size
  | refused {size : Nat} {memory : Memory} {value : α} {failure : Error} :
      Resizes size (.insert memory value) (.offered (.error failure)) size
  | exhausted {size : Nat} {supply : Nat → Memory} : Resizes size (.extend supply []) .done size
  | extended {size middle last : Nat} {supply : Nat → Memory} {value : α} {later : List α}
      {outcome : Except Error Insertion} {answer : Answer α}
      (hfirst : Resizes size (.insert (supply 0) value) (.offered outcome) middle)
      (hlater : Resizes middle (.extend (fun k => supply (k + 1)) later) answer last) :
      Resizes size (.extend supply (value :: later)) answer last
  | popped {size : Nat} {side : Side} {value : α} :
      Resizes (size + 1) (.pop side) (.taken (some value)) size
  | missed {side : Side} : Resizes 0 (.pop side) (.taken none) 0
  | drained {values : List α} : Resizes values.length .drainDescending (.drained values) 0
  | cleared {size : Nat} : Resizes size .clear .done 0
  | hooked {size : Nat} {hook : Hook} : Resizes size (.setHook hook) .done size
  | unhooked {size : Nat} : Resizes size .clearHook .done size

section Step

variable {heap : MinMaxHeap α cmp} {memory : Memory} {value : α}

theorem Offer.resizes {step : Transition (MinMaxHeap α cmp) α (Except Error Insertion)}
    (h : Offer memory value heap step) :
    Resizes heap.size (.insert memory value) (.offered step.answer) step.state.size := by
  cases h with
  | @inserted capacity hfull hroom =>
    rw [size_push, size_withCapacity]
    exact .inserted
  | refused hlimit hsize hreserves => exact .refused
  | rejected hfull hleast hvalue => exact .rejected
  | @replaced least rest hfull hpop hvalue =>
    rw [size_push, size_of_pop hpop]
    exact .replaced

theorem Step.resizes {operation : Operation α} {step : Transition (MinMaxHeap α cmp) α (Answer α)}
    (h : Step heap operation step) :
    Resizes heap.size operation step.answer step.state.size := by
  induction h with
  | offered hoffer => exact hoffer.resizes
  | exhausted => exact .exhausted
  | extended hoffer hrest ih => exact .extended hoffer.resizes ih
  | popped hpop =>
    rw [← size_of_pop hpop]
    exact .popped
  | @missed heap side hpop =>
    have hempty : heap.size = 0 := congrArg List.length (pop_eq_none_iff.mp hpop)
    rw [Transition.quiet, hempty]
    exact .missed
  | @drained heap values hperm =>
    have hsize : values.length = heap.size := hperm.length_eq
    rw [← hsize]
    exact .drained
  | cleared => exact .cleared
  | hooked => exact .hooked
  | unhooked => exact .unhooked

end Step

/-! ## Every history -/

/-- An operation that goes through on guard, and keeps account of the values. -/
structure Operation.Safe (heap : MinMaxHeap α cmp) (operation : Operation α) : Prop where
  /-- No guard fails, every loop ends, and the outcome is the one without guards. -/
  guarded : Guarded.apply heap operation = some (heap.apply operation)
  /-- The number of values changes by those that were stored and removed. -/
  resizes : Resizes heap.size operation (heap.apply operation).answer
    (heap.apply operation).state.size
  /-- No value is lost and none is doubled. -/
  perm : (heap.toList ++ operation.offered).Perm
    ((heap.apply operation).answer.values ++
      ((heap.apply operation).discards.map Discard.value ++ (heap.apply operation).state.toList))

theorem Sound.safe {heap : MinMaxHeap α cmp} (h : heap.Sound) (operation : Operation α) :
    operation.Safe heap :=
  have hstep := step_apply h operation
  ⟨Guarded.apply_eq h operation, hstep.resizes, hstep.perm⟩

/-- Under any comparator whatever, each operation of each history of a new heap is safe, and so is
the whole history.  At its end the values can be taken out in order, as far as there is one. -/
theorem safety_of_run {start : MinMaxHeap α cmp} (hstart : start.Made)
    (history : List (Operation α)) :
    let last := (start.run history).state
    Guarded.run start history = some (start.run history) ∧
    (∀ before operation after, history = before ++ operation :: after →
      operation.Safe (start.run before).state) ∧
    Guarded.toSorted last = some last.toSorted ∧ last.toSorted.Perm last.toList := by
  intro last
  have hsound := hstart.sound
  refine ⟨Guarded.run_eq hsound history, ?_, Guarded.toSorted_eq (hsound.run history),
    (drain_spec .low last).1⟩
  intro before operation after _
  exact (hsound.run before).safe operation

/-- Every value comes before itself, and the remainders modulo 3 follow each other in a circle. -/
def circular : Comparator Nat :=
  fun a b => if a % 3 = (b + 1) % 3 then .gt else .lt

theorem safety_of_run_circular :
    ∃ start : MinMaxHeap Nat circular, start.Made ∧
      let history : List (Operation Nat) :=
        [.extend (fun _ => .ample) [0, 1, 2, 3, 4, 5, 6], .pop .high, .insert .ample 7, .pop .low]
      let ran := start.run history
      Guarded.run start history = some ran ∧ Guarded.toSorted ran.state = some ran.state.toSorted ∧
        ran.state.toSorted.length = 3 := by
  have hlimited : withLimit circular .ample (.atMost 4) = .ok ⟨#[], 4, .atMost 4, none⟩ := rfl
  have h := safety_of_run (.limited hlimited)
    [.extend (fun _ => .ample) [0, 1, 2, 3, 4, 5, 6], .pop .high, .insert .ample 7, .pop .low]
  exact ⟨_, .limited hlimited, h.1, h.2.2.1, by decide +kernel⟩

end MinMaxHeap

end PrioritySampling
