import PrioritySampling.MinMaxHeap.Operation
/-!
# Running histories

Histories compose: what a history does after another is what it does to the heap that the other
leaves.  An offer of several values is the same as one offer for each of them, so that every
history is as good as one in single steps.
-/

namespace PrioritySampling

namespace MinMaxHeap

variable {α : Type} {cmp : Comparator α}

namespace Operation

/-- The values that an operation offers to the heap. -/
def offered : Operation α → List α
  | insert _ value => [value]
  | extend _ values => values
  | _ => []

/-- The operation offers values and does nothing else. -/
def isOffer : Operation α → Bool
  | insert _ _ | extend _ _ => true
  | _ => false

/-- An operation in single steps: an offer of several values becomes one offer for each. -/
def singly : Operation α → List (Operation α)
  | extend supply values => values.mapIdx fun k value => insert (supply k) value
  | operation => [operation]

theorem offered_singly (operation : Operation α) :
    operation.singly.flatMap offered = operation.offered := by
  cases operation with
  | extend supply values =>
    rw [singly, offered]
    induction values generalizing supply with
    | nil => rfl
    | cons value later ih =>
      rw [List.mapIdx_cons, List.flatMap_cons, ih fun k => supply (k + 1)]
      rfl
  | _ => rfl

/-- The values offered in single steps are those offered at once. -/
theorem offered_flatMap_singly (history : List (Operation α)) :
    (history.flatMap singly).flatMap offered = history.flatMap offered := by
  simp only [List.flatMap_assoc, offered_singly]

/-- Single steps cannot be split further. -/
theorem singly_of_mem_singly {operation step : Operation α} (h : step ∈ operation.singly) :
    step.singly = [step] := by
  cases operation with
  | extend supply values =>
    obtain ⟨k, hk, rfl⟩ := List.mem_mapIdx.mp h
    rfl
  | _ =>
    rw [List.mem_singleton.mp h]
    rfl

theorem singly_of_mem_flatMap_singly {history : List (Operation α)} {step : Operation α}
    (h : step ∈ history.flatMap singly) : step.singly = [step] := by
  obtain ⟨operation, -, hstep⟩ := List.mem_flatMap.mp h
  exact singly_of_mem_singly hstep

/-- In single steps every offer is of one value. -/
theorem eq_insert_of_mem_singly {operation step : Operation α} (hoffer : operation.isOffer = true)
    (h : step ∈ operation.singly) : ∃ memory value, step = insert memory value := by
  cases operation with
  | insert memory value => exact ⟨memory, value, List.mem_singleton.mp h⟩
  | extend supply values =>
    obtain ⟨k, hk, rfl⟩ := List.mem_mapIdx.mp h
    exact ⟨_, _, rfl⟩
  | _ => cases hoffer

theorem eq_insert_of_mem_flatMap_singly {history : List (Operation α)} {step : Operation α}
    (hoffers : ∀ operation ∈ history, operation.isOffer = true)
    (h : step ∈ history.flatMap singly) : ∃ memory value, step = insert memory value := by
  obtain ⟨operation, hoperation, hstep⟩ := List.mem_flatMap.mp h
  exact eq_insert_of_mem_singly (hoffers operation hoperation) hstep

/-- The first steps offer the first values if each step offers one. -/
theorem offered_flatMap_take {steps : List (Operation α)}
    (hsteps : ∀ step ∈ steps, ∃ memory value, step = insert memory value) (k : Nat) :
    (steps.take k).flatMap offered = (steps.flatMap offered).take k := by
  induction steps generalizing k with
  | nil => rw [List.take_nil, List.flatMap_nil, List.take_nil]
  | cons step later ih =>
    obtain ⟨memory, value, rfl⟩ := hsteps step List.mem_cons_self
    cases k with
    | zero => rfl
    | succ k =>
      rw [List.take_succ_cons, List.flatMap_cons, List.flatMap_cons,
        ih fun step hstep => hsteps step (List.mem_cons_of_mem _ hstep)]
      rfl

end Operation

/-! ## One history after another -/

theorem run_append (heap : MinMaxHeap α cmp) (earlier later : List (Operation α)) :
    heap.run (earlier ++ later) =
      let first := heap.run earlier
      let rest := first.state.run later
      ⟨first.answer ++ rest.answer, rest.state, first.discards ++ rest.discards⟩ := by
  induction earlier generalizing heap with
  | nil => rfl
  | cons operation earlier ih =>
    rw [List.cons_append, run, ih]
    simp only [run, List.cons_append, List.append_assoc]

/-- The answers of a history as the values that were handed to the caller. -/
def returned (answers : List (Answer α)) : List α :=
  answers.flatMap Answer.values

theorem returned_append (earlier later : List (Answer α)) :
    returned (earlier ++ later) = returned earlier ++ returned later :=
  List.flatMap_append

/-! ## Single steps -/

/-- Two runs that nobody can tell apart by the values that come out or stay. -/
structure SameRun (one other : Transition (MinMaxHeap α cmp) α (List (Answer α))) : Prop where
  state_eq : one.state = other.state
  discards_eq : one.discards = other.discards
  returned_eq : returned one.answer = returned other.answer

theorem run_singly (heap : MinMaxHeap α cmp) (operation : Operation α) :
    SameRun (heap.run operation.singly) (heap.run [operation]) := by
  cases operation with
  | extend supply values =>
    induction values generalizing heap supply with
    | nil => exact ⟨rfl, rfl, rfl⟩
    | cons value later ih =>
      obtain ⟨hstate, hdiscards, hreturned⟩ :=
        ih (heap.insert (supply 0) value).state fun k => supply (k + 1)
      rw [Operation.singly, List.mapIdx_cons]
      refine ⟨hstate, ?_, hreturned⟩
      simp only [run, apply, extend, Transition.after, Transition.quiet, List.append_nil]
        at hdiscards ⊢
      exact congrArg ((heap.insert (supply 0) value).discards ++ ·) hdiscards
  | _ => exact ⟨rfl, rfl, rfl⟩

/-- A history and its single steps come to the same. -/
theorem run_flatMap_singly (heap : MinMaxHeap α cmp) (history : List (Operation α)) :
    SameRun (heap.run (history.flatMap Operation.singly)) (heap.run history) := by
  induction history generalizing heap with
  | nil => exact ⟨rfl, rfl, rfl⟩
  | cons operation later ih =>
    obtain ⟨hstate, hdiscards, hreturned⟩ := run_singly heap operation
    obtain ⟨hstate', hdiscards', hreturned'⟩ := ih (heap.run operation.singly).state
    rw [List.flatMap_cons, run_append, ← List.singleton_append, run_append heap [operation]]
    rw [hstate] at hstate' hdiscards' hreturned'
    refine ⟨?_, ?_, ?_⟩
    · simp only [hstate, hstate']
    · simp only [hstate, hdiscards, hdiscards']
    · simp only [returned_append, hstate, hreturned, hreturned']

end MinMaxHeap

end PrioritySampling
