import PrioritySampling.Proofs.Climb
import PrioritySampling.Proofs.Sink
import PrioritySampling.Proofs.Storage
/-!
# The extreme values

Under a consistent comparator every reachable heap is in min-max order: a value enters by
climbing from the last place, and one leaves from a place with no more than the root above it,
where the last value takes over and sinks.  In such a heap the root leads all values on the side
of least values, and the better of its children leads all on the other side, so that what a peek
shows and a pop takes is extreme.
-/

namespace PrioritySampling

namespace Place

/-- A place of a smaller tree, seen as one of a larger tree. -/
def castLE {m n : Nat} (h : m ≤ n) (place : Place m) : Place n :=
  ⟨place.node, place.one_le, Nat.le_trans place.le_count h⟩

end Place

namespace MinMaxHeap

variable {α : Type} {n : Nat} {cmp : Comparator α}

/-! ## One value more, one value less -/

theorem get_pop_castLE (items : Vector α n) (place : Place (n - 1)) :
    items.pop.get place.slot = items.get (place.castLE (Nat.sub_le n 1)).slot :=
  Vector.getElem_pop place.slot.isLt

/-- If the others are in order, the last value is the only one out of order. -/
theorem InOrder.withoutLast {items : Vector α n} (h : InOrder cmp items.pop) {last : Place n}
    (hlast : last.node = n) : InOrderWithout cmp items last := by
  have hcast : ∀ place : Place n, place ≠ last →
      ∃ place' : Place (n - 1), place'.castLE (Nat.sub_le n 1) = place := by
    intro place hne
    have hle := place.le_count
    have hne' : place.node ≠ n := fun heq => hne (Place.ext (heq.trans hlast.symm))
    exact ⟨⟨place.node, place.one_le, by omega⟩, rfl⟩
  intro upper lower hpair hupper hlower
  obtain ⟨upper, rfl⟩ := hcast upper hupper
  obtain ⟨lower, rfl⟩ := hcast lower hlower
  rw [Leads, ← get_pop_castLE, ← get_pop_castLE]
  exact h upper lower hpair

/-- A value appended to an array in order is the only one out of order. -/
theorem InOrder.push {items : Vector α n} (h : InOrder cmp items) (value : α) {last : Place (n + 1)}
    (hlast : last.node = n + 1) : InOrderWithout cmp (items.push value) last := by
  have hpop : InOrder cmp (items.push value).pop := by
    rw [Vector.pop_push]
    exact h
  exact hpop.withoutLast hlast

theorem extreme_low {items : Vector α n} {place : Place n}
    (h : extreme cmp items .low = some place) : place.node = Node.root := by
  rwa [extreme, Place.ofNode?_eq_some] at h

/-! ## Heaps in order -/

/-- The values of a heap are in min-max order. -/
def Ordered (heap : MinMaxHeap α cmp) : Prop :=
  InOrder cmp heap.items.toVector

theorem inOrder_toArray {items : Vector α n} :
    InOrder cmp items.toArray.toVector ↔ InOrder cmp items := by
  obtain ⟨array, rfl⟩ := items
  exact Iff.rfl

theorem ordered_of_toList_eq_nil {heap : MinMaxHeap α cmp} (h : heap.toList = []) :
    heap.Ordered := by
  intro upper
  have hsize : heap.items.size = 0 := by
    rw [toList, Array.toList_eq_nil_iff] at h
    rw [h]
    rfl
  have := upper.one_le
  have := upper.le_count
  omega

theorem exists_place_of_mem {heap : MinMaxHeap α cmp} {value : α} (h : value ∈ heap.toList) :
    ∃ place : Place heap.items.size, heap.items.toVector.get place.slot = value := by
  obtain ⟨slot, hslot, hvalue⟩ := List.getElem_of_mem h
  obtain ⟨place, hplace⟩ := Place.exists_slot_eq (⟨slot, hslot⟩ : Fin heap.items.size)
  refine ⟨place, ?_⟩
  rw [hplace]
  exact hvalue

/-! ## Extreme places -/

variable [Std.TransCmp cmp]

/-- On the side of greatest values the extreme place is a child of the root that leads all its
children, unless there is none. -/
theorem extreme_high {items : Vector α n} {place : Place n}
    (h : extreme cmp items .high = some place) :
    place.node ≤ 3 ∧ (2 ≤ n → 2 ≤ place.node) ∧
      ∀ child : Place n, Node.parent child.node = Node.root →
        Side.high.leads cmp (items.get place.slot) (items.get child.slot) := by
  rw [extreme] at h
  split at h
  · rename_i hthree
    let left : Place n := ⟨2, by decide, Nat.le_trans (by decide) hthree⟩
    let right : Place n := ⟨3, by decide, hthree⟩
    have hchild : ∀ child : Place n, Node.parent child.node = Node.root →
        child = left ∨ child = right := by
      intro child hparent
      simp only [Node.parent, Node.root] at hparent
      have hnode : child.node = 2 ∨ child.node = 3 := by omega
      exact hnode.imp (fun heq => Place.ext heq) (fun heq => Place.ext heq)
    have hplace :
        (if cmp.less (items.get left.slot) (items.get right.slot) then right else left) = place :=
      Option.some.inj h
    cases hless : cmp.less (items.get left.slot) (items.get right.slot) with
    | true =>
      rw [hless, if_pos rfl] at hplace
      subst hplace
      refine ⟨Nat.le_refl _, fun _ => (by decide : 2 ≤ 3), fun child hparent => ?_⟩
      rcases hchild child hparent with rfl | rfl
      · have hahead :
            Side.low.flip.ahead cmp (items.get right.slot) (items.get left.slot) = true := by
          rwa [Side.ahead_flip]
        exact Side.leads_of_ahead hahead
      · exact Side.leads_refl _
    | false =>
      rw [hless, if_neg Bool.false_ne_true] at hplace
      subst hplace
      refine ⟨(by decide : 2 ≤ 3), fun _ => Nat.le_refl _, fun child hparent => ?_⟩
      rcases hchild child hparent with rfl | rfl
      · exact Side.leads_refl _
      · exact hless
  · rename_i hthree
    rw [Option.orElse_eq_orElse, Option.orElse_eq_or, Option.or_eq_some_iff,
      Place.ofNode?_eq_some, Place.ofNode?_eq_some, Place.ofNode?_eq_none (by decide)] at h
    simp only [Node.firstChild, Node.root] at h
    refine ⟨by omega, by omega, fun child hparent => ?_⟩
    have hle := child.le_count
    simp only [Node.parent, Node.root] at hparent
    obtain rfl : place = child := Place.ext (by omega)
    exact Side.leads_refl _

/-- The extreme value on a side leads all values. -/
theorem leads_of_extreme {items : Vector α n} {side : Side} {place : Place n}
    (h : InOrder cmp items) (hplace : extreme cmp items side = some place) (other : Place n) :
    side.leads cmp (items.get place.slot) (items.get other.slot) := by
  have hother := other.one_le
  by_cases heq : other = place
  · subst heq
    exact Side.leads_refl _
  have hne : other.node ≠ place.node := fun h => heq (Place.ext h)
  cases side with
  | low =>
    have hroot := extreme_low hplace
    have hbelow : Node.Below place.node other.node := by
      rw [hroot, Node.root] at hne ⊢
      exact Node.root_below (by omega)
    have hlead := h place other hbelow
    rwa [Leads, hroot, Side.ofNode_root] at hlead
  | high =>
    obtain ⟨-, htwo, hchildren⟩ := extreme_high hplace
    have hle := other.le_count
    by_cases hroot : other.node = Node.root
    · have hplace := place.le_count
      have hbelow : Node.Below other.node place.node := by
        rw [hroot, Node.root] at hne ⊢
        have := place.one_le
        exact Node.root_below (by omega)
      have hlead := h other place hbelow
      rw [Leads, hroot, Side.ofNode_root] at hlead
      exact Side.leads_flip.mpr hlead
    · have hrootBelow : Node.Below Node.root other.node := by
        rw [Node.root] at hroot
        exact Node.root_below (by omega)
      obtain ⟨c, hc, hcase⟩ := hrootBelow.exists_child
      have htwo : 2 ≤ c := by
        simp only [Node.parent, Node.root] at hc
        omega
      have hcle : c ≤ n := by
        rcases hcase with rfl | hbelow
        · exact hle
        · have := hbelow.lt (Nat.le_trans (by decide) htwo)
          omega
      let child : Place n := ⟨c, Nat.le_trans (by decide) htwo, hcle⟩
      have hlead := hchildren child hc
      rcases hcase with hchild | hbelow
      · obtain rfl : other = child := Place.ext hchild
        exact hlead
      · have hside : Side.ofNode child.node = .high := by
          have hflip := Side.ofNode_parent htwo
          rw [hc, Side.ofNode_root] at hflip
          rw [← Side.flip_flip (Side.ofNode child.node), ← hflip]
          rfl
        have hbelow' := h child other hbelow
        rw [Leads, hside] at hbelow'
        exact Side.leads_trans hlead hbelow'

/-- Above the place of an extreme value there is nothing but the root. -/
theorem below_last_of_extreme {items : Vector α n} {side : Side} {place upper : Place n}
    (hplace : extreme cmp items side = some place)
    (hupper : Node.Below upper.node place.node) : Node.Below upper.node n := by
  have hone := upper.one_le
  have hlt := hupper.lt hone
  have hle := place.le_count
  cases side with
  | low =>
    have hroot := extreme_low hplace
    rw [Node.root] at hroot
    omega
  | high =>
    obtain ⟨hthree, -, -⟩ := extreme_high hplace
    have hroot : upper.node = Node.root := by
      rcases Node.below_iff.mp hupper with hparent | habove
      · simp only [Node.parent] at hparent
        rw [Node.root]
        omega
      · have := habove.lt hone
        simp only [Node.parent] at this
        omega
    rw [hroot]
    exact Node.root_below (by omega)

/-! ## Pushes and pops -/

/-- The last value may take over any place if the last place is below all that is above it. -/
theorem removeAt_inOrder {items : Vector α n} {place : Place n} (h : InOrder cmp items)
    (habove : ∀ upper : Place n, Node.Below upper.node place.node → Node.Below upper.node n) :
    InOrder cmp (removeAt cmp items place) := by
  have hn : 1 ≤ n := Nat.le_trans place.one_le place.le_count
  let last : Place n := ⟨n, hn, Nat.le_refl n⟩
  have hlast : ∀ other : Place (n - 1), other.castLE (Nat.sub_le n 1) ≠ last := by
    intro other heq
    have hnode : other.node = n := congrArg Place.node heq
    have hle := other.le_count
    omega
  have hpair : ∀ upper lower : Place (n - 1), upper.node ≠ place.node →
      Node.Below upper.node lower.node → Leads cmp (exchange items place last).pop upper lower := by
    intro upper lower hne hbelow
    have hupper : upper.castLE (Nat.sub_le n 1) ≠ place :=
      fun heq => hne (congrArg Place.node heq)
    rw [Leads, get_pop_castLE, get_pop_castLE,
      get_exchange_of_ne hupper (hlast upper)]
    by_cases hlower : lower.castLE (Nat.sub_le n 1) = place
    · subst hlower
      rw [get_exchange_left]
      exact h (upper.castLE _) last (habove (upper.castLE _) hbelow)
    · rw [get_exchange_of_ne hlower (hlast lower)]
      exact h (upper.castLE _) (lower.castLE _) hbelow
  rw [removeAt]
  split
  · rename_i hnone
    rw [Place.ofNode?_eq_none place.one_le] at hnone
    intro upper lower hbelow
    refine hpair upper lower ?_ hbelow
    have hle := upper.le_count
    omega
  · rename_i hole hsome
    rw [Place.ofNode?_eq_some] at hsome
    refine siftDown_inOrder fun upper hne lower hbelow => hpair upper lower ?_ hbelow
    exact fun heq => hne (Place.ext (heq.trans hsome.symm))

section Heap

variable {heap rest : MinMaxHeap α cmp} {value : α} {side : Side}

theorem Ordered.push (h : heap.Ordered) (value : α) : (heap.push value).Ordered := by
  refine inOrder_toArray.mpr (siftUp_inOrder (InOrder.push h value rfl) ?_)
  intro lower hbelow
  have hlt := hbelow.lt (Nat.le_add_left 1 _)
  have hle := lower.le_count
  omega

theorem Ordered.pop (h : heap.Ordered) (hpop : heap.pop side = some (value, rest)) :
    rest.Ordered := by
  obtain ⟨place, hplace, -, rfl⟩ := exists_of_pop hpop
  exact inOrder_toArray.mpr
    (removeAt_inOrder h fun upper hupper => below_last_of_extreme hplace hupper)

/-- What a peek shows leads all values on its side. -/
theorem Ordered.leads_of_peek (h : heap.Ordered) (hpeek : heap.peek side = some value) {other : α}
    (hother : other ∈ heap.toList) : side.leads cmp value other := by
  rw [peek, Option.map_eq_some_iff] at hpeek
  obtain ⟨place, hplace, rfl⟩ := hpeek
  obtain ⟨otherPlace, rfl⟩ := exists_place_of_mem hother
  exact leads_of_extreme h hplace otherPlace

/-! ## Offers to a full heap -/

/-- A full heap in order that is offered a value discards one that comes after none of those it
keeps. -/
theorem Ordered.discard_of_offer {memory : Memory}
    {step : Transition (MinMaxHeap α cmp) α (Except Error Insertion)} (h : heap.Ordered)
    (hoffer : Offer memory value heap step) (hfull : heap.isFull = true) :
    ∃ gone, step.discards = heap.discard [gone] ∧ step.state.size = heap.size ∧
      ∀ kept ∈ step.state.toList, cmp.greater gone kept = false := by
  cases hoffer with
  | inserted hnot hroom =>
    rw [hfull] at hnot
    cases hnot
  | refused hlimit hsize hreserves =>
    rw [isFull, hlimit] at hfull
    cases hfull
  | @rejected least hfull hleast hvalue =>
    refine ⟨value, rfl, rfl, fun kept hkept => ?_⟩
    have hgone : Side.low.leads cmp value least := hvalue
    exact Side.leads_trans hgone (h.leads_of_peek hleast hkept)
  | @replaced least rest hfull hpop hvalue =>
    refine ⟨least, rfl, by rw [size_push, size_of_pop hpop], fun kept hkept => ?_⟩
    show Side.low.leads cmp least kept
    rcases List.mem_cons.mp ((toList_push rest value).mem_iff.mp hkept) with rfl | hkept
    · have hahead : Side.high.ahead cmp kept least = true := hvalue
      exact Side.leads_flip.mp (Side.leads_of_ahead hahead)
    · refine h.leads_of_peek (peek_of_pop hpop) ?_
      exact (toList_of_pop hpop).mem_iff.mpr (List.mem_cons_of_mem least hkept)

/-! ## Histories -/

theorem Ordered.offer {memory : Memory}
    {step : Transition (MinMaxHeap α cmp) α (Except Error Insertion)} (h : heap.Ordered)
    (hoffer : Offer memory value heap step) : step.state.Ordered := by
  cases hoffer with
  | @inserted capacity hfull hroom =>
    have h' : (heap.withCapacity capacity).Ordered := h
    exact h'.push value
  | refused hlimit hsize hreserves => exact h
  | rejected hfull hleast hvalue => exact h
  | replaced hfull hpop hvalue => exact (h.pop hpop).push value

theorem Ordered.step {operation : Operation α}
    {step : Transition (MinMaxHeap α cmp) α (Answer α)} (h : heap.Ordered)
    (hstep : Step heap operation step) : step.state.Ordered := by
  induction hstep with
  | offered hoffer => exact h.offer hoffer
  | exhausted => exact h
  | extended hoffer hrest ih => exact ih (h.offer hoffer)
  | popped hpop => exact h.pop hpop
  | missed hpop => exact h
  | drained hperm => exact ordered_of_toList_eq_nil rfl
  | cleared => exact ordered_of_toList_eq_nil rfl
  | hooked => exact h
  | unhooked => exact h

/-- Every history keeps a heap in order. -/
theorem Ordered.run (h : heap.Ordered) (hsound : heap.Sound) (history : List (Operation α)) :
    (heap.run history).state.Ordered := by
  induction history generalizing heap with
  | nil => exact h
  | cons operation later ih =>
    exact ih (h.step (step_apply hsound operation)) (hsound.apply operation)

/-- Whatever has happened to a heap, each value on a level of least values comes no later than
those below it, and each on a level of greatest values no earlier.  The values it shows are
therefore its extremes, and a pop takes the one that was shown and no other. -/
theorem extremes_of_run {start : MinMaxHeap α cmp} (hstart : start.Made)
    (history : List (Operation α)) :
    let heap := (start.run history).state
    (∀ upper lower : Place heap.items.size, Node.Below upper.node lower.node →
      (Side.ofNode upper.node = .low →
        cmp.greater (heap.items.toVector.get upper.slot) (heap.items.toVector.get lower.slot) =
          false) ∧
      (Side.ofNode upper.node = .high →
        cmp.less (heap.items.toVector.get upper.slot) (heap.items.toVector.get lower.slot) =
          false)) ∧
    (∀ side, heap.peek side = none ↔ heap.toList = []) ∧
    (∀ least, heap.min? = some least →
      least ∈ heap.toList ∧ ∀ other ∈ heap.toList, cmp.less other least = false) ∧
    (∀ greatest, heap.max? = some greatest →
      greatest ∈ heap.toList ∧ ∀ other ∈ heap.toList, cmp.greater other greatest = false) ∧
    (∀ side, (heap.pop side).map Prod.fst = heap.peek side) ∧
    ∀ side value rest, heap.pop side = some (value, rest) →
      heap.toList.Perm (value :: rest.toList) ∧ rest = { heap with items := rest.items } := by
  intro heap
  have hordered : heap.Ordered :=
    Ordered.run (ordered_of_toList_eq_nil hstart.toList_eq_nil) hstart.sound history
  refine ⟨?_, ?_, ?_, ?_, map_fst_pop heap, ?_⟩
  · intro upper lower hbelow
    have hlead := hordered upper lower hbelow
    constructor
    · intro hside
      rwa [Leads, hside] at hlead
    · intro hside
      rwa [Leads, hside] at hlead
  · intro side
    rw [← map_fst_pop, Option.map_eq_none_iff, pop_eq_none_iff]
  · intro least hleast
    refine ⟨mem_of_peek hleast, ?_⟩
    intro other hother
    exact Side.leads_iff_not_ahead.mp (hordered.leads_of_peek hleast hother)
  · intro greatest hgreatest
    refine ⟨mem_of_peek hgreatest, ?_⟩
    intro other hother
    exact Side.leads_iff_not_ahead.mp (hordered.leads_of_peek hgreatest hother)
  · intro side value rest hpop
    exact ⟨toList_of_pop hpop, eq_of_pop hpop⟩

end Heap

theorem extremes_of_run_evict :
    ∃ heap : MinMaxHeap Nat compare, heap.toList = [4, 9] ∧
      (∀ other ∈ heap.toList, Comparator.less compare other 4 = false) ∧
      ∀ other ∈ heap.toList, Comparator.greater compare other 9 = false := by
  have hstart : withLimit (compare : Comparator Nat) .ample (.atMost 2) =
      .ok ⟨#[], 2, .atMost 2, none⟩ := rfl
  have h := extremes_of_run (Made.limited hstart)
    [.insert .ample 9, .insert .ample 1, .insert .ample 4]
  exact ⟨_, by decide +kernel, (h.2.2.1 4 (by decide +kernel)).2,
    (h.2.2.2.1 9 (by decide +kernel)).2⟩

end MinMaxHeap

end PrioritySampling
