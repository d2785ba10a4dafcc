import Mathlib.Tactic.Common
import PrioritySampling.Proofs.Tree
/-!
# Min-max order

`Side.leads` is the order of a comparator seen from one of its ends, in the weak form in which
min-max order uses it: a value leads another if it is no nearer to the opposite end.  Under a
consistent comparator it is a total preorder, and turning the side round turns it round.

A place *heads* its subtree if its value leads all values below it, on the side of its own
level.  An array is in min-max order if every place heads its subtree.  `InOrderBut` and
`InOrderUpTo` are the two weaker conditions under which the array can be repaired: from the
first the value at one place has to sink, from the second it has to climb.
-/

namespace PrioritySampling

namespace Side

variable {α : Type}

/-- `a` is no nearer to the opposite end than `b`. -/
def leads (cmp : Comparator α) (side : Side) (a b : α) : Prop :=
  side.flip.ahead cmp a b = false

variable {cmp : Comparator α} {side : Side} {a b c : α}

theorem low_leads_iff : low.leads cmp a b ↔ (cmp a b).isLE = true := by
  simp only [leads, flip, ahead, Comparator.greater]
  cases cmp a b <;> decide

section Oriented

variable [Std.OrientedCmp cmp]

/-- What is ahead on one side is behind on the other. -/
theorem ahead_flip : side.flip.ahead cmp a b = side.ahead cmp b a := by
  have hswap : cmp a b = (cmp b a).swap := Std.OrientedCmp.eq_swap
  cases side <;> simp only [flip, ahead, Comparator.less, Comparator.greater, hswap] <;>
    cases cmp b a <;> rfl

theorem leads_iff_not_ahead : side.leads cmp a b ↔ side.ahead cmp b a = false := by
  rw [leads, ahead_flip]

theorem leads_flip : side.flip.leads cmp a b ↔ side.leads cmp b a := by
  rw [leads, leads_iff_not_ahead, flip_flip]

theorem high_leads_iff : high.leads cmp a b ↔ (cmp b a).isLE = true := by
  rw [← low_leads_iff, ← leads_flip]
  exact Iff.rfl

theorem leads_of_not_ahead (h : ¬ side.ahead cmp a b = true) : side.leads cmp b a :=
  leads_iff_not_ahead.mpr (Bool.eq_false_iff.mpr h)

theorem leads_of_ahead (h : side.ahead cmp a b = true) : side.leads cmp a b := by
  cases side with
  | low =>
    rw [low_leads_iff, Comparator.less_eq_true.mp h]
    rfl
  | high =>
    have hswap : cmp b a = (cmp a b).swap := Std.OrientedCmp.eq_swap
    rw [high_leads_iff, hswap, Comparator.greater_eq_true.mp h]
    rfl

theorem leads_refl (a : α) : side.leads cmp a a := by
  have hself : cmp a a = .eq := Std.ReflCmp.compare_self
  cases side with
  | low =>
    rw [low_leads_iff, hself]
    rfl
  | high =>
    rw [high_leads_iff, hself]
    rfl

/-- Two values that lead each other are equal to the comparator. -/
theorem eq_of_leads (hab : low.leads cmp a b) (hba : low.leads cmp b a) : cmp a b = .eq := by
  have hswap : cmp b a = (cmp a b).swap := Std.OrientedCmp.eq_swap
  rw [low_leads_iff] at hab hba
  rw [hswap] at hba
  cases h : cmp a b with
  | lt =>
    rw [h] at hba
    cases hba
  | eq => rfl
  | gt =>
    rw [h] at hab
    cases hab

end Oriented

theorem leads_trans [Std.TransCmp cmp] (hab : side.leads cmp a b) (hbc : side.leads cmp b c) :
    side.leads cmp a c := by
  cases side with
  | low =>
    rw [low_leads_iff] at hab hbc ⊢
    exact Std.TransCmp.isLE_trans hab hbc
  | high =>
    rw [high_leads_iff] at hab hbc ⊢
    exact Std.TransCmp.isLE_trans hbc hab

end Side

namespace MinMaxHeap

variable {α : Type} {n : Nat}

/-! ## Exchanging two values -/

section Exchange

variable (items : Vector α n) (a b : Place n)

@[simp]
theorem get_exchange_left : (exchange items a b).get a.slot = items.get b.slot :=
  Vector.getElem_swap_left _ _

@[simp]
theorem get_exchange_right : (exchange items a b).get b.slot = items.get a.slot :=
  Vector.getElem_swap_right _ _

theorem get_exchange_of_ne {items : Vector α n} {a b c : Place n} (ha : c ≠ a) (hb : c ≠ b) :
    (exchange items a b).get c.slot = items.get c.slot := by
  have ha' : (c.slot : Nat) ≠ a.slot := fun h => ha (Place.slot_inj.mp (Fin.ext h))
  have hb' : (c.slot : Nat) ≠ b.slot := fun h => hb (Place.slot_inj.mp (Fin.ext h))
  exact Vector.getElem_swap_of_ne ha' hb'

end Exchange

/-! ## Min-max order -/

section Order

variable (cmp : Comparator α) (items : Vector α n)

/-- The values at two places stand in the order that the level of the upper one asks for. -/
def Leads (upper lower : Place n) : Prop :=
  (Side.ofNode upper.node).leads cmp (items.get upper.slot) (items.get lower.slot)

/-- The value at a place leads all values below it. -/
def Heads (place : Place n) : Prop :=
  ∀ other : Place n, Node.Below place.node other.node → Leads cmp items place other

/-- Every place heads its subtree. -/
def InOrder : Prop :=
  ∀ place : Place n, Heads cmp items place

/-- Every place heads its subtree, with the possible exception of one. -/
def InOrderBut (hole : Place n) : Prop :=
  ∀ place : Place n, place ≠ hole → Heads cmp items place

/-- All pairs are in order but those of one place with the places above it on its own side. -/
def InOrderUpTo (place : Place n) : Prop :=
  ∀ upper lower : Place n, Node.Below upper.node lower.node →
    (lower = place → Side.ofNode upper.node ≠ Side.ofNode place.node) →
    Leads cmp items upper lower

end Order

end MinMaxHeap

end PrioritySampling
