import PrioritySampling.Proofs.Order
/-!
# Climbing restores the order

The value that enters at the last place is the only one that may stand on the wrong side of
another.  Comparing it with its parent settles on which of the two sides it is too far ahead, if
on any: from then on `InOrderUpTo` holds at the place where the value stands, and each exchange
with a grandparent carries this condition two levels up.
-/

namespace PrioritySampling

namespace MinMaxHeap

variable {α : Type} {n : Nat} {cmp : Comparator α}

/-- All pairs are in order that have no part in one place. -/
def InOrderWithout (cmp : Comparator α) (items : Vector α n) (place : Place n) : Prop :=
  ∀ upper lower : Place n, Node.Below upper.node lower.node → upper ≠ place → lower ≠ place →
    Leads cmp items upper lower

section Climb

variable [Std.TransCmp cmp] {items : Vector α n} {place : Place n}

/-- A value that is not ahead of its grandparent stands where it belongs. -/
theorem InOrderUpTo.inOrder (h : InOrderUpTo cmp items place)
    (hstop : ∀ hgrand : 4 ≤ place.node, ¬ (Side.ofNode place.node).ahead cmp
      (items.get place.slot) (items.get (place.grandparent hgrand).slot) = true) :
    InOrder cmp items := by
  intro upper lower hbelow
  by_cases hpair : lower = place ∧ Side.ofNode upper.node = Side.ofNode place.node
  · obtain ⟨rfl, hside⟩ := hpair
    have hupper := upper.one_le
    rcases Node.below_iff_grandparent.mp hbelow with hparent | hgrand | habove
    · have htwo : 2 ≤ lower.node := by
        simp only [Node.parent] at hparent
        omega
      rw [← hparent, Side.ofNode_parent htwo] at hside
      exact absurd hside (Side.flip_ne _)
    · have hfour : 4 ≤ lower.node := by
        simp only [Node.grandparent] at hgrand
        omega
      obtain rfl : lower.grandparent hfour = upper := Place.ext hgrand
      have hlead := Side.leads_of_not_ahead (hstop hfour)
      rw [← hside] at hlead
      exact hlead
    · have hlt := habove.lt hupper
      have hfour : 4 ≤ lower.node := by
        simp only [Node.grandparent] at hlt
        omega
      have hlead := Side.leads_of_not_ahead (hstop hfour)
      rw [← hside] at hlead
      refine Side.leads_trans (h upper (lower.grandparent hfour) habove ?_) hlead
      intro heq
      have := congrArg Place.node heq
      simp only [Place.grandparent, Node.grandparent] at this
      omega
  · exact h upper lower hbelow fun hlower hside => hpair ⟨hlower, hside⟩

/-- An exchange with the grandparent takes the condition up to the grandparent. -/
theorem InOrderUpTo.exchange_grandparent {above : Place n} (h : InOrderUpTo cmp items place)
    (habove : Node.grandparent place.node = above.node)
    (hahead :
      (Side.ofNode place.node).ahead cmp (items.get place.slot) (items.get above.slot) = true) :
    InOrderUpTo cmp (exchange items place above) above := by
  have hfour : 4 ≤ place.node := by
    have := above.one_le
    simp only [Node.grandparent] at habove
    omega
  have hside : Side.ofNode above.node = Side.ofNode place.node :=
    habove ▸ Side.ofNode_grandparent hfour
  have hbelow : Node.Below above.node place.node :=
    Node.below_iff_grandparent.mpr (.inr (.inl habove))
  have hlead : (Side.ofNode place.node).leads cmp (items.get place.slot) (items.get above.slot) :=
    Side.leads_of_ahead hahead
  intro upper lower hpair hexcept
  have hne := Place.ne_of_below hpair
  rw [Leads]
  by_cases hu : upper = above
  · subst hu
    rw [get_exchange_right, hside]
    by_cases hl : lower = place
    · subst hl
      rwa [get_exchange_left]
    · rw [get_exchange_of_ne hl hne]
      exact Side.leads_trans hlead (hside ▸ h upper lower hpair fun heq => absurd heq hl)
  by_cases hu' : upper = place
  · subst hu'
    have hbelow' := hbelow.trans hpair
    rw [get_exchange_left, get_exchange_of_ne hne (Place.ne_of_below hbelow'), ← hside]
    exact h above lower hbelow' fun heq => absurd heq hne
  rw [get_exchange_of_ne hu' hu]
  by_cases hl : lower = above
  · subst hl
    rw [get_exchange_right]
    exact h upper place (hpair.trans hbelow) fun _ => hside ▸ hexcept rfl
  by_cases hl' : lower = place
  · subst hl'
    rw [get_exchange_left]
    rcases Node.below_iff_grandparent.mp hpair with hparent | hgrand | hupper
    · -- The parent is on the other side, and the grandparent leads it.
      have hflip : Side.ofNode upper.node = (Side.ofNode above.node).flip := by
        rw [hside, ← hparent, Side.ofNode_parent (by omega)]
      have hchild : Node.Below above.node upper.node :=
        .child (by rw [← hparent, Node.parent_parent, habove])
      rw [hflip, Side.leads_flip]
      exact h above upper hchild fun heq => absurd heq hu'
    · exact absurd (Place.ext (hgrand.symm.trans habove)) hu
    · exact h upper above (habove ▸ hupper) fun heq => absurd heq.symm hl
  · rw [get_exchange_of_ne hl' hl]
    exact h upper lower hpair fun heq => absurd heq hl'

theorem climb_inOrder {side : Side} (hside : Side.ofNode place.node = side)
    (h : InOrderUpTo cmp items place) : InOrder cmp (climb cmp side items place) := by
  fun_induction climb cmp side items place with
  | case1 items place hgrand above hahead ih =>
    refine ih ?_ ?_
    · rw [← hside]
      exact Side.ofNode_grandparent hgrand
    · rw [← hside] at hahead
      exact h.exchange_grandparent rfl hahead
  | case2 items place hgrand above hahead =>
    refine h.inOrder fun _ => ?_
    rw [hside]
    exact hahead
  | case3 items place hroot =>
    exact h.inOrder fun hgrand => absurd hgrand hroot

/-! ## The new value at the last place -/

/-- An exchange with the parent settles the side on which the value may be too far ahead. -/
theorem InOrderWithout.exchange_parent {above : Place n} (h : InOrderWithout cmp items place)
    (hleaf : ∀ lower : Place n, ¬ Node.Below place.node lower.node)
    (habove : Node.parent place.node = above.node)
    (hahead :
      (Side.ofNode above.node).ahead cmp (items.get place.slot) (items.get above.slot) = true) :
    InOrderUpTo cmp (exchange items place above) above := by
  have hbelow : Node.Below above.node place.node := .child habove
  have hlead : (Side.ofNode above.node).leads cmp (items.get place.slot) (items.get above.slot) :=
    Side.leads_of_ahead hahead
  intro upper lower hpair hexcept
  have hne := Place.ne_of_below hpair
  have hu : upper ≠ place := fun heq => hleaf lower (heq ▸ hpair)
  rw [Leads]
  by_cases hu' : upper = above
  · subst hu'
    rw [get_exchange_right]
    by_cases hl : lower = place
    · subst hl
      rwa [get_exchange_left]
    · rw [get_exchange_of_ne hl hne]
      exact Side.leads_trans hlead (h upper lower hpair hu hl)
  rw [get_exchange_of_ne hu hu']
  by_cases hl : lower = above
  · subst hl
    -- The upper place is on the other side, where the new value is behind the old one.
    have hflip := Side.eq_flip_of_ne (hexcept rfl)
    have hupper := h upper lower hpair hu (Place.ne_of_below hbelow).symm
    rw [Leads, hflip] at hupper
    rw [get_exchange_right, hflip]
    exact Side.leads_trans hupper (Side.leads_flip.mpr hlead)
  by_cases hl' : lower = place
  · subst hl'
    rw [get_exchange_left]
    rcases Node.below_iff.mp hpair with hparent | hupper
    · exact absurd (Place.ext (hparent.symm.trans habove)) hu'
    · exact h upper above (habove ▸ hupper) hu (Place.ne_of_below hbelow).symm
  · rw [get_exchange_of_ne hl' hl]
    exact h upper lower hpair hu hl'

/-- A value that is on the right side of its parent may only be too far ahead on its own. -/
theorem InOrderWithout.inOrderUpTo (h : InOrderWithout cmp items place)
    (hleaf : ∀ lower : Place n, ¬ Node.Below place.node lower.node)
    (hparent : ∀ above : Place n, Node.parent place.node = above.node →
      (Side.ofNode above.node).leads cmp (items.get above.slot) (items.get place.slot)) :
    InOrderUpTo cmp items place := by
  intro upper lower hpair hexcept
  have hu : upper ≠ place := fun heq => hleaf lower (heq ▸ hpair)
  by_cases hl : lower = place
  · subst hl
    rcases Node.below_iff.mp hpair with hupper | hupper
    · exact hparent upper hupper
    · have hone := upper.one_le
      have hlt := hupper.lt hone
      have htwo : 2 ≤ lower.node := by
        simp only [Node.parent] at hlt
        omega
      have hside : Side.ofNode (Node.parent lower.node) = Side.ofNode upper.node := by
        rw [Side.ofNode_parent htwo, Side.eq_flip_of_ne (hexcept rfl)]
      have hlead := h upper (lower.parent htwo) hupper hu
        (Place.ne_of_below (.child rfl : Node.Below (lower.parent htwo).node lower.node)).symm
      have hlead' := hparent (lower.parent htwo) rfl
      rw [Place.parent, hside] at hlead'
      exact Side.leads_trans hlead hlead'
  · exact h upper lower hpair hu hl

/-- A value that enters at a place without descendants finds its place. -/
theorem siftUp_inOrder (h : InOrderWithout cmp items place)
    (hleaf : ∀ lower : Place n, ¬ Node.Below place.node lower.node) :
    InOrder cmp (siftUp cmp items place) := by
  rw [siftUp]
  split
  · rename_i htwo
    have hside : Side.ofNode (place.parent htwo).node = (Side.ofNode place.node).flip :=
      Side.ofNode_parent htwo
    simp only
    split
    · rename_i hahead
      rw [← hside] at hahead
      exact climb_inOrder hside (h.exchange_parent hleaf rfl hahead)
    · rename_i hahead
      refine climb_inOrder rfl (h.inOrderUpTo hleaf fun above habove => ?_)
      obtain rfl : place.parent htwo = above := Place.ext habove
      rw [← hside] at hahead
      exact Side.leads_of_not_ahead hahead
  · rename_i hroot
    intro upper lower hpair
    have hlt := hpair.lt upper.one_le
    have hupper := upper.one_le
    refine h upper lower hpair (fun heq => hleaf lower (heq ▸ hpair)) ?_
    rintro rfl
    omega

end Climb

/-! ## Values that stay where they are -/

section Stay

variable [Std.OrientedCmp cmp] {items : Vector α n}

theorem climb_eq_self (h : InOrder cmp items) (place : Place n) :
    climb cmp (Side.ofNode place.node) items place = items := by
  rw [climb]
  split
  · rename_i hgrand
    have hside : Side.ofNode (place.grandparent hgrand).node = Side.ofNode place.node :=
      Side.ofNode_grandparent hgrand
    have hbelow : Node.Below (place.grandparent hgrand).node place.node :=
      Node.below_iff_grandparent.mpr (.inr (.inl rfl))
    have hlead := h (place.grandparent hgrand) place hbelow
    rw [Leads, hside, Side.leads_iff_not_ahead] at hlead
    exact if_neg (Bool.eq_false_iff.mp hlead)
  · rfl

/-- In an array in order no value climbs. -/
theorem siftUp_eq_self (h : InOrder cmp items) (place : Place n) :
    siftUp cmp items place = items := by
  rw [siftUp]
  split
  · rename_i hparent
    have hside : Side.ofNode (place.parent hparent).node = (Side.ofNode place.node).flip :=
      Side.ofNode_parent hparent
    have hlead := h (place.parent hparent) place (.child rfl)
    rw [Leads, hside, Side.leads_iff_not_ahead] at hlead
    simp only
    rw [if_neg (Bool.eq_false_iff.mp hlead)]
    exact climb_eq_self h place
  · rfl

end Stay

end MinMaxHeap

end PrioritySampling
