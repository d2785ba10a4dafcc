/-!
# Comparators

A comparator decides the order of values by answering one question about two of them.  Any
function may serve: the heap never assumes that the answers are consistent, it only promises
sorted results when they are.  Three ways of making one cover most uses: the natural order of
the values, the reverse of another comparator, and the natural order of a key.
-/

namespace PrioritySampling

/-- A function that says how its first argument stands to its second. -/
abbrev Comparator (α : Type) := α → α → Ordering

namespace Comparator

variable {α β : Type}

/-- `a` comes strictly before `b`. -/
def less (cmp : Comparator α) (a b : α) : Bool :=
  cmp a b == .lt

/-- `a` comes strictly after `b`. -/
def greater (cmp : Comparator α) (a b : α) : Bool :=
  cmp a b == .gt

/-- The order that the values have by themselves. -/
abbrev natural [Ord α] : Comparator α :=
  compare

/-- The order of `cmp` turned around: the question is put with the two values exchanged. -/
abbrev reverse (cmp : Comparator α) : Comparator α :=
  fun a b => cmp b a

/-- The order of the keys that `key` reads off the values. -/
abbrev byKey [Ord β] (key : α → β) : Comparator α :=
  compareOn key

@[simp]
theorem less_eq_true {cmp : Comparator α} {a b : α} : cmp.less a b = true ↔ cmp a b = .lt := by
  simp [less]

@[simp]
theorem greater_eq_true {cmp : Comparator α} {a b : α} :
    cmp.greater a b = true ↔ cmp a b = .gt := by
  simp [greater]

@[simp]
theorem less_reverse {cmp : Comparator α} (a b : α) : cmp.reverse.less a b = cmp.less b a := rfl

@[simp]
theorem greater_reverse {cmp : Comparator α} (a b : α) :
    cmp.reverse.greater a b = cmp.greater b a := rfl

/-- Turning an order around twice gives it back. -/
@[simp]
theorem reverse_reverse (cmp : Comparator α) : cmp.reverse.reverse = cmp := rfl

end Comparator

end PrioritySampling
