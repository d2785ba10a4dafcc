import Mathlib.Data.Multiset.MapFold
import Mathlib.Data.Multiset.ZeroCons
import PrioritySampling.Event
/-!
# The rank of events

Two events rank equal if and only if their priorities settle to the same number and their
timestamps are the same.  So what a selection of events determines up to equal rank, it
determines up to the payload and the sign of zero, and the keys of two such selections are the
same.
-/

namespace PrioritySampling

namespace Binary64

/-- A pattern is put together from its sign and its magnitude. -/
theorem toNat_bits (x : Binary64) :
    x.bits.toNat = (if x.negative then signBit else 0) + x.magnitude := by
  have hlt : x.bits.toNat < 2 * signBit := x.bits.toNat_lt
  rw [negative, magnitude]
  split
  · rename_i hnegative
    have hle : signBit ≤ x.bits.toNat := of_decide_eq_true hnegative
    rw [Nat.mod_eq_sub_mod hle, Nat.mod_eq_of_lt (by omega)]
    omega
  · rename_i hnegative
    have hle : ¬ signBit ≤ x.bits.toNat := fun hle => hnegative (decide_eq_true hle)
    rw [Nat.mod_eq_of_lt (by omega)]
    omega

/-- No two patterns have the same place. -/
theorem orderKey_inj {x y : Binary64} : x.orderKey = y.orderKey ↔ x = y := by
  refine ⟨fun h => ?_, congrArg orderKey⟩
  have hbits : x.bits.toNat = y.bits.toNat := by
    rw [toNat_bits, toNat_bits]
    unfold orderKey at h
    split at h <;> split at h <;> rename_i hx hy <;> simp only [hx, hy] <;> omega
  obtain ⟨bits⟩ := x
  obtain ⟨bits'⟩ := y
  exact congrArg mk (UInt64.toNat_inj.mp hbits)

end Binary64

namespace Event

variable {π : Type}

/-- All that the rank of an event depends on. -/
def key (event : Event π) : Binary64 × UInt64 :=
  (event.priority.settle, event.timestamp)

theorem rank_eq_iff {a b : Event π} : rank a b = .eq ↔ a.key = b.key := by
  simp only [rank, compareLex, Ordering.then_eq_eq, compareOn, key, Prod.mk.injEq,
    Std.LawfulEqCmp.compare_eq_iff_eq, Binary64.priorityKey, Binary64.orderKey_inj]

/-- Events that rank equal one by one have the same keys. -/
theorem map_key_of_rel {kept kept' : Multiset (Event π)}
    (h : Multiset.Rel (fun a b => rank a b = .eq) kept kept') :
    kept.map key = kept'.map key := by
  refine Multiset.rel_eq.mp (Multiset.rel_map.mpr ?_)
  exact h.mono fun a _ b _ hab => rank_eq_iff.mp hab

end Event

end PrioritySampling
