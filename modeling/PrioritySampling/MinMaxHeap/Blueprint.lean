import PrioritySampling.MinMaxHeap.Basic
/-!
# Blueprints of heaps

A heap can be described step by step before it is built.  The order of its values comes last:
it is given when the heap is built, so that no heap is without one.
-/

namespace PrioritySampling

namespace MinMaxHeap

/-- What a heap is to be like. -/
structure Blueprint where
  /-- The greatest number of values to keep, 0 for no limit. -/
  count : Nat
  hook : Option Hook

namespace Blueprint

/-- No limit and no hook. -/
def start : Blueprint :=
  ⟨0, none⟩

/-- Sets the greatest number of values to keep. -/
def limitedTo (count : Nat) (plan : Blueprint) : Blueprint :=
  { plan with count := count }

/-- Sets the hook for discarded values. -/
def discardingTo (hook : Hook) (plan : Blueprint) : Blueprint :=
  { plan with hook := some hook }

/-- Builds the heap. -/
def build {α : Type} (cmp : Comparator α) (memory : Memory) (plan : Blueprint) :
    Except Error (MinMaxHeap α cmp) := do
  let heap ← bounded cmp memory plan.count
  return { heap with hook := plan.hook }

end Blueprint

end MinMaxHeap

end PrioritySampling
