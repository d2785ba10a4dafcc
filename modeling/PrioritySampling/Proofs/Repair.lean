import PrioritySampling.Proofs.Extremes
import PrioritySampling.Proofs.Levels
/-!
# Repairs

Sinking and climbing are used in two situations, and the heap takes more from them than the order
they restore.  A value that is new at some place, with all other places in order, sinks within the
subtree of the place, so that two repairs in disjoint subtrees do not meet.  A value that is new at
the last place climbs the path from there to the root.  On the way it passes from one line of its
ancestors to the other at most once, and in either case it leaves the path alone if it is in order
with all of it.
-/

namespace PrioritySampling

namespace Place

variable {count : Nat}

/-- What can be decided of each place can be decided of all. -/
instance {p : Place count → Prop} [DecidablePred p] : Decidable (∀ place, p place) :=
  decidable_of_iff
      (∀ slot : Fin count, p ⟨slot.val + 1, Nat.le_add_left 1 slot.val, slot.isLt⟩) <| by
    constructor
    · intro h place
      have hplace : place = ⟨place.slot.val + 1, Nat.le_add_left 1 _, place.slot.isLt⟩ :=
        Place.ext (Nat.sub_add_cancel place.one_le).symm
      rw [hplace]
      exact h place.slot
    · intro h slot
      exact h _

end Place

namespace MinMaxHeap

variable {α : Type} {n : Nat} {cmp : Comparator α}

/-! ## Deciding the order -/

section Decidable

variable (cmp : Comparator α) (items : Vector α n)

instance (upper lower : Place n) : Decidable (Leads cmp items upper lower) :=
  inferInstanceAs (Decidable (_ = false))

instance (place : Place n) : Decidable (Heads cmp items place) :=
  inferInstanceAs (Decidable (∀ _, _ → _))

instance : Decidable (InOrder cmp items) :=
  inferInstanceAs (Decidable (∀ _, _))

instance (hole : Place n) : Decidable (InOrderBut cmp items hole) :=
  decidable_of_iff (∀ place : Place n, place.node ≠ hole.node → Heads cmp items place) <| by
    simp only [InOrderBut, ne_eq, Place.ext_iff]

end Decidable

/-! ## What a repair leaves alone -/

section Touched

variable {items : Vector α n} {place next other : Place n}

/-- A climb keeps to the places above. -/
theorem get_climb_of_not_above {side : Side} (hne : other ≠ place)
    (habove : ¬Node.Below other.node place.node) :
    (climb cmp side items place).get other.slot = items.get other.slot := by
  fun_induction climb cmp side items place with
  | case1 items place hgrand above hahead ih =>
    have hbelow : Node.Below above.node place.node :=
      Node.below_iff_grandparent.mpr (.inr (.inl rfl))
    have hne' : other ≠ above := by
      rintro rfl
      exact habove hbelow
    rw [ih hne' fun h => habove (h.trans hbelow), get_exchange_of_ne hne hne']
  | case2 items place hgrand above hahead => rfl
  | case3 items place hroot => rfl

/-- A value that moves up keeps to the path to the root. -/
theorem get_siftUp_of_not_above (hne : other ≠ place)
    (habove : ¬Node.Below other.node place.node) :
    (siftUp cmp items place).get other.slot = items.get other.slot := by
  rw [siftUp]
  split
  · rename_i htwo
    have hbelow : Node.Below (place.parent htwo).node place.node := .child rfl
    have hne' : other ≠ place.parent htwo := by
      rintro rfl
      exact habove hbelow
    simp only
    split
    · rw [get_climb_of_not_above hne' fun h => habove (h.trans hbelow),
        get_exchange_of_ne hne hne']
    · exact get_climb_of_not_above hne habove
  · rfl

/-- What the heap looks at below a place lies below it. -/
theorem below_of_foremost [Std.TransCmp cmp] {side : Side}
    (hsome : foremost cmp side items place.descendants = some next) :
    Node.Below place.node next.node := by
  rcases Place.mem_descendants.mp (foremost_spec hsome).1 with hparent | hgrand
  · exact .child hparent
  · exact Node.below_iff_grandparent.mpr (.inr (.inl hgrand))

/-- A value that sinks keeps to the subtree. -/
theorem get_sink_of_not_below [Std.TransCmp cmp] {side : Side} (hne : other ≠ place)
    (hbelow : ¬Node.Below place.node other.node) :
    (sink cmp side items place).get other.slot = items.get other.slot := by
  fun_induction sink cmp side items place with
  | case1 items place hnone => rfl
  | case2 items place next hsome hahead items' hgrand above hwrong ih =>
    have hnext := below_of_foremost hsome
    have hplace := (Node.isGrandchild_iff place.one_le).mp hgrand
    have habove : Node.Below place.node above.node :=
      .child ((Node.parent_parent next.node).trans hplace)
    have hne' : other ≠ next := fun heq => hbelow (heq ▸ hnext)
    have hne'' : other ≠ above := fun heq => hbelow (heq ▸ habove)
    rw [ih hne' fun h => hbelow (hnext.trans h), get_exchange_of_ne hne' hne'',
      get_exchange_of_ne hne' hne]
  | case3 items place next hsome hahead items' hgrand above hright ih =>
    have hnext := below_of_foremost hsome
    have hne' : other ≠ next := fun heq => hbelow (heq ▸ hnext)
    rw [ih hne' fun h => hbelow (hnext.trans h), get_exchange_of_ne hne' hne]
  | case4 items place next hsome hahead items' hchild =>
    have hne' : other ≠ next := fun heq => hbelow (heq ▸ below_of_foremost hsome)
    exact get_exchange_of_ne hne' hne
  | case5 items place next hsome hahead => rfl

end Touched

/-! ## A new value at one place -/

section Repairs

variable [Std.TransCmp cmp] {items : Vector α n}

/-- With all places in order but one, on whichever level, sinking the value of that place puts the
whole array in order.  The values stay the same, and those that are neither at the place nor below
it stay where they are. -/
theorem repair_of_siftDown {place : Place n} (h : InOrderBut cmp items place) :
    let repaired := siftDown cmp items place
    InOrder cmp repaired ∧ repaired.Perm items ∧
      ∀ other : Place n, other ≠ place → ¬Node.Below place.node other.node →
        repaired.get other.slot = items.get other.slot :=
  ⟨siftDown_inOrder h, siftDown_perm cmp items place,
    fun _ hne hbelow => get_sink_of_not_below hne hbelow⟩

/-- The value at a child of the root sinks two levels, changes places with its new parent, and the
value from there sinks one level more. -/
theorem repair_of_siftDown_fourLevels :
    let items : Vector Nat 19 :=
      #v[0, 1, 90, 10, 12, 20, 21, 50, 70, 60, 61, 30, 31, 32, 33, 40, 41, 15, 69]
    let place : Place 19 := ⟨2, by decide, by decide⟩
    InOrderBut compare items place ∧ ¬InOrder compare items ∧
      siftDown compare items place =
        #v[0, 70, 90, 1, 12, 20, 21, 50, 69, 60, 61, 30, 31, 32, 33, 40, 41, 15, 10] ∧
      InOrder compare (siftDown compare items place) := by
  intro items place
  have hbut : InOrderBut compare items place := by decide +kernel
  exact ⟨hbut, by decide +kernel, by decide +kernel, (repair_of_siftDown hbut).1⟩

/-! ## A new value at the last place -/

/-- Nothing lies below the last place. -/
theorem not_below_last {last : Place n} (hlast : last.node = n) (lower : Place n) :
    ¬Node.Below last.node lower.node := by
  intro hbelow
  have hlt := hbelow.lt last.one_le
  have hle := lower.le_count
  omega

/-- With all values in order but the last, moving that one up puts the whole array in order.  The
values stay the same, and only those on the path from the last place to the root may move.  None
does if the last value was in order with all above it. -/
theorem repair_of_siftUp {last : Place n} (hlast : last.node = n) (h : InOrder cmp items.pop) :
    let repaired := siftUp cmp items last
    InOrder cmp repaired ∧ repaired.Perm items ∧
      (∀ other : Place n, other ≠ last → ¬Node.Below other.node last.node →
        repaired.get other.slot = items.get other.slot) ∧
      ((∀ upper : Place n, Node.Below upper.node last.node → Leads cmp items upper last) →
        repaired = items) := by
  intro repaired
  have hothers := h.withoutLast hlast
  have hleaf := not_below_last hlast
  refine ⟨siftUp_inOrder hothers hleaf, siftUp_perm cmp items last,
    fun _ hne habove => get_siftUp_of_not_above hne habove, fun hpath => ?_⟩
  refine siftUp_eq_self (fun upper lower hbelow => ?_) last
  by_cases hlower : lower = last
  · subst hlower
    exact hpath upper hbelow
  · exact hothers upper lower hbelow (fun hupper => hleaf lower (hupper ▸ hbelow)) hlower

/-- A last value that changes to the other line of its ancestors and climbs that one to its end,
and one that stays. -/
theorem repair_of_siftUp_otherLine :
    let items (value : Nat) : Vector Nat 19 :=
      #v[0, 80, 90, 10, 12, 20, 21, 50, 70, 60, 61, 30, 31, 32, 33, 40, 41, 15, value]
    let last : Place 19 := ⟨19, by decide, by decide⟩
    (∀ value, InOrder compare (items value).pop) ∧
      siftUp compare (items 95) last =
        #v[0, 95, 90, 10, 12, 20, 21, 50, 80, 60, 61, 30, 31, 32, 33, 40, 41, 15, 70] ∧
      InOrder compare (siftUp compare (items 95) last) ∧
      siftUp compare (items 60) last = items 60 := by
  intro items last
  have hothers : ∀ value, InOrder compare (items value).pop := by
    intro value
    have hpop : (items value).pop = (items 0).pop := rfl
    rw [hpop]
    decide +kernel
  refine ⟨hothers, by decide +kernel, (repair_of_siftUp rfl (hothers 95)).1, ?_⟩
  exact (repair_of_siftUp rfl (hothers 60)).2.2.2 (by decide +kernel)

end Repairs

end MinMaxHeap

end PrioritySampling
