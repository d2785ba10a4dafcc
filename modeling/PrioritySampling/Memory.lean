/-!
# Memory

Storage is the one resource that can run out.  Whether a request is granted is not for a heap
to know beforehand, so every operation that may need storage is given the memory it will find,
and a statement about all memories covers every pattern of refusals.
-/

namespace PrioritySampling

/-- The memory that one request meets: which numbers of slots it has room for. -/
structure Memory where
  /-- There is room for that many slots. -/
  grants : Nat → Bool

namespace Memory

/-- It is assumed that nobody has room for this many slots, whatever is to be put into them. -/
def ceiling : Nat := Nat.pow 2 60

/-- A request for that many slots is met. -/
def reserves (memory : Memory) (slots : Nat) : Bool :=
  slots < ceiling && memory.grants slots

/-- Memory that refuses nothing below the ceiling. -/
def ample : Memory :=
  ⟨fun _ => true⟩

/-- Memory that has room for at most so many slots. -/
def upTo (most : Nat) : Memory :=
  ⟨fun slots => slots ≤ most⟩

theorem lt_ceiling_of_reserves {memory : Memory} {slots : Nat}
    (h : memory.reserves slots = true) : slots < ceiling := by
  simp only [reserves, Bool.and_eq_true, decide_eq_true_eq] at h
  exact h.1

end Memory

end PrioritySampling
