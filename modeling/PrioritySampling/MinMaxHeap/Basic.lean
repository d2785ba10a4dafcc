import PrioritySampling.Discard
import PrioritySampling.Limit
import PrioritySampling.Memory
import PrioritySampling.MinMaxHeap.Sift
/-!
# Min-max heaps

A min-max heap is a double-ended priority queue in one array: the least value is at the root
and the greatest at one of the root's children.  A heap with a limit keeps the greatest values
it is offered: once full, it turns away a newcomer that does not come strictly after the least
value, and otherwise evicts that value to make room.

Storage is accounted for by `capacity`, the number of slots that have been reserved.  A limited
heap reserves its limit at once and never grows; an unlimited one starts with a chunk and
doubles.  The memory that a request meets is an argument of the operation that makes it.
-/

namespace PrioritySampling

/-- A heap of values in the order of `cmp`. -/
structure MinMaxHeap (α : Type) (cmp : Comparator α) where
  /-- The values in storage order. -/
  items : Array α
  /-- The slots that have been reserved. -/
  capacity : Nat
  limit : Limit
  /-- The hook that receives discarded values. -/
  hook : Option Hook

/-- What became of an offered value. -/
inductive Insertion where
  /-- It was stored beside the others. -/
  | inserted
  /-- It was stored in place of the least value. -/
  | replaced
  /-- It was turned away. -/
  | rejected
  deriving DecidableEq, Repr

namespace Insertion

/-- The number of stored values did not grow. -/
def displaced : Insertion → Bool
  | inserted => false
  | replaced | rejected => true

/-- The offered value is stored now. -/
def retained : Insertion → Bool
  | inserted | replaced => true
  | rejected => false

end Insertion

namespace MinMaxHeap

variable {α : Type} {cmp : Comparator α}

/-! ## Making a heap -/

/-- The slots that a heap without limit starts with. -/
def chunk : Nat := 8

/-- An empty heap without limit. -/
def empty (cmp : Comparator α) : MinMaxHeap α cmp :=
  ⟨#[], chunk, .unbounded, none⟩

/-- The slots that a new heap with the given limit reserves. -/
def initialSlots : Limit → Except Error Nat
  | .unbounded => .ok chunk
  | .atMost count =>
    if count < 2 then .error (.invalidBound count) else .ok count

/-- An empty heap with the given limit, if the limit is valid and its storage can be had. -/
def withLimit (cmp : Comparator α) (memory : Memory) (limit : Limit) :
    Except Error (MinMaxHeap α cmp) := do
  let slots ← initialSlots limit
  if memory.reserves slots then
    .ok ⟨#[], slots, limit, none⟩
  else
    .error (.allocationFailed slots)

/-- An empty heap with the limit that a count describes. -/
def bounded (cmp : Comparator α) (memory : Memory) (count : Nat) :
    Except Error (MinMaxHeap α cmp) := do
  withLimit cmp memory (← Limit.ofNat count)

/-! ## Reading -/

/-- The number of values. -/
def size (heap : MinMaxHeap α cmp) : Nat :=
  heap.items.size

/-- The values in storage order. -/
def toList (heap : MinMaxHeap α cmp) : List α :=
  heap.items.toList

/-- There is no value. -/
def isEmpty (heap : MinMaxHeap α cmp) : Bool :=
  heap.size == 0

/-- The number that describes the limit, 0 for none. -/
def bound (heap : MinMaxHeap α cmp) : Nat :=
  heap.limit.toNat

/-- The heap has a limit and has reached it. -/
def isFull (heap : MinMaxHeap α cmp) : Bool :=
  match heap.limit with
  | .unbounded => false
  | .atMost count => count ≤ heap.size

/-- The extreme value on one side. -/
def peek (side : Side) (heap : MinMaxHeap α cmp) : Option α :=
  (extreme cmp heap.items.toVector side).map fun place => heap.items.toVector.get place.slot

/-- The least value. -/
def min? (heap : MinMaxHeap α cmp) : Option α :=
  heap.peek .low

/-- The greatest value. -/
def max? (heap : MinMaxHeap α cmp) : Option α :=
  heap.peek .high

/-! ## Removing values -/

/-- Takes the extreme value on one side out of the heap and hands it to the caller. -/
def pop (side : Side) (heap : MinMaxHeap α cmp) : Option (α × MinMaxHeap α cmp) :=
  let items := heap.items.toVector
  (extreme cmp items side).map fun place =>
    (items.get place.slot, { heap with items := (removeAt cmp items place).toArray })

/-- A pop shortens the heap by one. -/
theorem size_of_pop {side : Side} {heap rest : MinMaxHeap α cmp} {value : α}
    (h : heap.pop side = some (value, rest)) : rest.size + 1 = heap.size := by
  simp only [pop, Option.map_eq_some_iff, Prod.mk.injEq] at h
  obtain ⟨place, -, -, rfl⟩ := h
  have := place.one_le
  have := place.le_count
  simp only [size, Vector.size_toArray]
  omega

/-- Takes all values out, beginning with the extreme one on a side, and leaves the heap empty
but otherwise as it was. -/
def drain (side : Side) (heap : MinMaxHeap α cmp) : List α × MinMaxHeap α cmp :=
  match h : heap.pop side with
  | none => ([], heap)
  | some (value, rest) =>
    have : rest.size < heap.size := Nat.lt_of_succ_le (Nat.le_of_eq (size_of_pop h))
    let (values, last) := rest.drain side
    (value :: values, last)
termination_by heap.size

/-- The values from the least to the greatest, at the cost of the heap. -/
def toSorted (heap : MinMaxHeap α cmp) : List α :=
  (heap.drain .low).1

/-! ## Discarding values -/

/-- Installs a hook in place of any other. -/
def setHook (hook : Hook) (heap : MinMaxHeap α cmp) : MinMaxHeap α cmp :=
  { heap with hook := some hook }

/-- Removes the hook. -/
def clearHook (heap : MinMaxHeap α cmp) : MinMaxHeap α cmp :=
  { heap with hook := none }

/-- Values sent to whatever hook is installed now. -/
def discard (heap : MinMaxHeap α cmp) (values : List α) : List (Discard α) :=
  values.map (⟨heap.hook, ·⟩)

/-- Discards all values in storage order and keeps the storage. -/
def clear (heap : MinMaxHeap α cmp) : Transition (MinMaxHeap α cmp) α Unit :=
  ⟨(), { heap with items := #[] }, heap.discard heap.toList⟩

/-- The end of a heap: what it still holds is discarded in storage order. -/
def drop (heap : MinMaxHeap α cmp) : List (Discard α) :=
  heap.discard heap.toList

/-! ## Adding values -/

/-- Enlarges full storage to twice its size. -/
def grow (memory : Memory) (heap : MinMaxHeap α cmp) : Except Error (MinMaxHeap α cmp) :=
  let slots := max (2 * heap.capacity) chunk
  if memory.reserves slots then
    .ok { heap with capacity := slots }
  else
    .error (.allocationFailed slots)

/-- The heap with one more slot in use than it has values, grown if need be. -/
def makeRoom (memory : Memory) (heap : MinMaxHeap α cmp) : Except Error (MinMaxHeap α cmp) :=
  if heap.size = heap.capacity then heap.grow memory else .ok heap

/-- Stores a value in the next slot and moves it up to where it belongs. -/
def push (value : α) (heap : MinMaxHeap α cmp) : MinMaxHeap α cmp :=
  let last : Place (heap.items.size + 1) :=
    ⟨heap.items.size + 1, Nat.le_add_left 1 _, Nat.le_refl _⟩
  { heap with items := (siftUp cmp (heap.items.toVector.push value) last).toArray }

/-- Stores a value, with the given outcome.  If there is no room for it, it is discarded. -/
def store (memory : Memory) (outcome : Insertion) (value : α) (heap : MinMaxHeap α cmp) :
    Transition (MinMaxHeap α cmp) α (Except Error Insertion) :=
  match heap.makeRoom memory with
  | .ok roomy => .quiet (.ok outcome) (roomy.push value)
  | .error failure => ⟨.error failure, heap, heap.discard [value]⟩

/-- A full heap admits a value that comes strictly after its least one. -/
def admits (value : α) (heap : MinMaxHeap α cmp) : Bool :=
  match heap.items[0]? with
  | some least => cmp.greater value least
  | none => true

/-- Offers a value to the heap.  A full heap discards either the value or, if it admits the
value, the least one that it holds. -/
def insert (memory : Memory) (value : α) (heap : MinMaxHeap α cmp) :
    Transition (MinMaxHeap α cmp) α (Except Error Insertion) :=
  if heap.isFull then
    if heap.admits value then
      match heap.pop .low with
      | some (evicted, rest) =>
        (rest.store memory .replaced value).after (heap.discard [evicted])
      | none => heap.store memory .replaced value
    else
      ⟨.ok .rejected, heap, heap.discard [value]⟩
  else
    heap.store memory .inserted value

/-- Offers values one after another, whatever becomes of each.  The memory that the `k`-th
value meets is `supply k`. -/
def extend (supply : Nat → Memory) (values : List α) (heap : MinMaxHeap α cmp) :
    Transition (MinMaxHeap α cmp) α Unit :=
  match values with
  | [] => .quiet () heap
  | value :: later =>
    let step := heap.insert (supply 0) value
    (step.state.extend (fun k => supply (k + 1)) later).after step.discards

end MinMaxHeap

end PrioritySampling
