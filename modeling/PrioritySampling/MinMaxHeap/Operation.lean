import PrioritySampling.MinMaxHeap.Basic
/-!
# Histories of a heap

An operation that changes a heap, as a value.  A history is a list of operations, and running
it collects every answer and every discard in order.  Statements about all reachable heaps are
statements about histories.
-/

namespace PrioritySampling

namespace MinMaxHeap

/-- One change of a heap. -/
inductive Operation (α : Type) where
  /-- Offer a value, with the memory that it meets. -/
  | insert (memory : Memory) (value : α)
  /-- Offer several values, with the memory that each one meets. -/
  | extend (supply : Nat → Memory) (values : List α)
  /-- Take the extreme value on a side. -/
  | pop (side : Side)
  /-- Take all values, the greatest first. -/
  | drainDescending
  /-- Discard all values. -/
  | clear
  /-- Install a hook. -/
  | setHook (hook : Hook)
  /-- Remove the hook. -/
  | clearHook

/-- What an operation answers. -/
inductive Answer (α : Type) where
  /-- What became of an offered value. -/
  | offered (outcome : Except Error Insertion)
  /-- The value that was taken, if there was one. -/
  | taken (value : Option α)
  /-- The values that were taken. -/
  | drained (values : List α)
  /-- Nothing to tell. -/
  | done

/-- The values that an answer hands to the caller. -/
def Answer.values {α : Type} : Answer α → List α
  | offered _ => []
  | taken value => value.toList
  | drained values => values
  | done => []

variable {α : Type} {cmp : Comparator α}

/-- Carries out one operation. -/
def apply (heap : MinMaxHeap α cmp) :
    Operation α → Transition (MinMaxHeap α cmp) α (Answer α)
  | .insert memory value =>
    let step := heap.insert memory value
    ⟨.offered step.answer, step.state, step.discards⟩
  | .extend supply values =>
    let step := heap.extend supply values
    ⟨.done, step.state, step.discards⟩
  | .pop side =>
    match heap.pop side with
    | some (value, rest) => .quiet (.taken (some value)) rest
    | none => .quiet (.taken none) heap
  | .drainDescending =>
    let (values, rest) := heap.drain .high
    .quiet (.drained values) rest
  | .clear =>
    let step := heap.clear
    ⟨.done, step.state, step.discards⟩
  | .setHook hook => .quiet .done (heap.setHook hook)
  | .clearHook => .quiet .done heap.clearHook

/-- Carries out a history, from the first operation to the last. -/
def run (heap : MinMaxHeap α cmp) :
    List (Operation α) → Transition (MinMaxHeap α cmp) α (List (Answer α))
  | [] => .quiet [] heap
  | operation :: later =>
    let step := heap.apply operation
    let rest := step.state.run later
    ⟨step.answer :: rest.answer, rest.state, step.discards ++ rest.discards⟩

end MinMaxHeap

end PrioritySampling
