import PrioritySampling.MinMaxHeap.Operation
import PrioritySampling.Proofs.Order
/-!
# What becomes of the values

Climbing and sinking only exchange values, so they permute the array whatever the comparator
answers.  It follows that a push adds one value to those of the heap, that a pop takes the value
it hands over and no other, and that a drain hands over all of them.  No consistency of the
comparator is needed, nor that the heap is one that operations could have led to.
-/

namespace PrioritySampling

namespace MinMaxHeap

variable {α : Type} {n : Nat} (cmp : Comparator α)

theorem exchange_perm (items : Vector α n) (a b : Place n) : (exchange items a b).Perm items :=
  Vector.swap_perm _ _

theorem climb_perm (side : Side) (items : Vector α n) (place : Place n) :
    (climb cmp side items place).Perm items := by
  fun_induction climb cmp side items place with
  | case1 items place hgrand above hahead ih => exact ih.trans (exchange_perm _ _ _)
  | case2 items place hgrand above hahead => exact .refl _
  | case3 items place hroot => exact .refl _

theorem siftUp_perm (items : Vector α n) (place : Place n) :
    (siftUp cmp items place).Perm items := by
  rw [siftUp]
  split
  · simp only
    split
    · exact (climb_perm cmp _ _ _).trans (exchange_perm _ _ _)
    · exact climb_perm cmp _ _ _
  · exact .refl _

theorem sink_perm (side : Side) (items : Vector α n) (place : Place n) :
    (sink cmp side items place).Perm items := by
  fun_induction sink cmp side items place with
  | case1 items place hnone => exact .refl _
  | case2 items place next hsome hahead items' hgrand above hwrong ih =>
    exact (ih.trans (exchange_perm _ _ _)).trans (exchange_perm _ _ _)
  | case3 items place next hsome hahead items' hgrand above hright ih =>
    exact ih.trans (exchange_perm _ _ _)
  | case4 items place next hsome hahead items' hchild => exact exchange_perm _ _ _
  | case5 items place next hsome hahead => exact .refl _

theorem siftDown_perm (items : Vector α n) (place : Place n) :
    (siftDown cmp items place).Perm items :=
  sink_perm cmp _ items place

/-- The values of an array are the last one and those before it. -/
theorem last_cons_pop_perm (items : Vector α n) (last : Place n) (hlast : last.node = n) :
    (items.get last.slot :: items.pop.toList).Perm items.toList := by
  have hone := last.one_le
  have hne : items.toList ≠ [] := by
    rw [← List.length_pos_iff, Vector.length_toList]
    omega
  have hpop : items.pop.toList = items.toList.dropLast := by
    rw [← Vector.toList_toArray, Vector.toArray_pop, Array.toList_pop, Vector.toList_toArray]
  have hvalue : items.get last.slot = items.toList.getLast hne := by
    show items[(last.slot : Nat)] = _
    simp only [List.getLast_eq_getElem, Vector.getElem_toList, Vector.length_toList, Place.slot,
      Node.slot, hlast]
  rw [hpop, hvalue]
  calc
    (items.toList.getLast hne :: items.toList.dropLast).Perm
        (items.toList.dropLast ++ [items.toList.getLast hne]) :=
      (List.perm_append_singleton _ _).symm
    _ = items.toList := List.dropLast_concat_getLast hne

/-- Removing the value at a place keeps all others. -/
theorem removeAt_perm (items : Vector α n) (place : Place n) :
    (items.get place.slot :: (removeAt cmp items place).toList).Perm items.toList := by
  have hn : 1 ≤ n := Nat.le_trans place.one_le place.le_count
  let last : Place n := ⟨n, hn, Nat.le_refl n⟩
  have hrest : (removeAt cmp items place).Perm (exchange items place last).pop := by
    rw [removeAt]
    split
    · exact .refl _
    · exact siftDown_perm cmp _ _
  have hvalue : (exchange items place last).get last.slot = items.get place.slot :=
    get_exchange_right items place last
  calc
    (items.get place.slot :: (removeAt cmp items place).toList).Perm
        ((exchange items place last).get last.slot :: (exchange items place last).pop.toList) := by
      rw [hvalue]
      exact hrest.toList.cons _
    _ |>.Perm (exchange items place last).toList := last_cons_pop_perm _ last rfl
    _ |>.Perm items.toList := (exchange_perm _ _ _).toList

/-- The node of the extreme value is missing from an empty array alone. -/
theorem extreme_eq_none_iff {items : Vector α n} {side : Side} :
    extreme cmp items side = none ↔ n = 0 := by
  cases side with
  | low =>
    rw [extreme, Place.ofNode?_eq_none (by decide), Node.root]
    omega
  | high =>
    rw [extreme]
    split
    · simp only [reduceCtorEq, false_iff]
      omega
    · rw [Option.orElse_eq_orElse, Option.orElse_eq_or, Option.or_eq_none_iff,
        Place.ofNode?_eq_none (by decide), Place.ofNode?_eq_none (by decide), Node.firstChild,
        Node.root]
      omega

variable {cmp}

/-! ## One value in, one value out -/

section Heap

variable {heap rest : MinMaxHeap α cmp} {value : α} {side : Side}

theorem toList_push (heap : MinMaxHeap α cmp) (value : α) :
    (heap.push value).toList.Perm (value :: heap.toList) := by
  have hperm := (siftUp_perm cmp (heap.items.toVector.push value)
    ⟨heap.items.size + 1, Nat.le_add_left 1 _, Nat.le_refl _⟩).toList
  rw [Vector.toList_push] at hperm
  exact hperm.trans (List.perm_append_singleton _ _)

theorem size_push (heap : MinMaxHeap α cmp) (value : α) :
    (heap.push value).size = heap.size + 1 := by
  have := (toList_push heap value).length_eq
  simpa [toList, size] using this

/-- What is discarded are the values themselves, whatever the hook. -/
@[simp]
theorem map_value_discard (heap : MinMaxHeap α cmp) (values : List α) :
    (heap.discard values).map Discard.value = values := by
  rw [discard, List.map_map]
  exact List.map_id' values

/-- A pop takes the value at the extreme node. -/
theorem exists_of_pop (h : heap.pop side = some (value, rest)) :
    ∃ place, extreme cmp heap.items.toVector side = some place ∧
      heap.items.toVector.get place.slot = value ∧
      rest = { heap with items := (removeAt cmp heap.items.toVector place).toArray } := by
  simp only [pop, Option.map_eq_some_iff, Prod.mk.injEq] at h
  obtain ⟨place, hplace, hvalue, hrest⟩ := h
  exact ⟨place, hplace, hvalue, hrest.symm⟩

theorem map_fst_pop (heap : MinMaxHeap α cmp) (side : Side) :
    (heap.pop side).map Prod.fst = heap.peek side := by
  simp only [pop, peek, Option.map_map]
  rfl

theorem peek_of_pop (h : heap.pop side = some (value, rest)) : heap.peek side = some value := by
  rw [← map_fst_pop, h]
  rfl

theorem toList_of_pop (h : heap.pop side = some (value, rest)) :
    heap.toList.Perm (value :: rest.toList) := by
  obtain ⟨place, -, rfl, rfl⟩ := exists_of_pop h
  exact (removeAt_perm cmp heap.items.toVector place).symm

/-- A pop changes nothing but the values. -/
theorem eq_of_pop (h : heap.pop side = some (value, rest)) :
    rest = { heap with items := rest.items } := by
  obtain ⟨place, -, -, rfl⟩ := exists_of_pop h
  rfl

theorem pop_eq_none_iff : heap.pop side = none ↔ heap.toList = [] := by
  rw [pop, Option.map_eq_none_iff, extreme_eq_none_iff, toList, Array.toList_eq_nil_iff,
    ← Array.size_eq_zero_iff]

/-- What is shown on a side is one of the values. -/
theorem mem_of_peek (h : heap.peek side = some value) : value ∈ heap.toList := by
  rw [← map_fst_pop, Option.map_eq_some_iff] at h
  obtain ⟨⟨taken, rest⟩, hpop, rfl⟩ := h
  exact (toList_of_pop hpop).mem_iff.mpr List.mem_cons_self

/-- The value in the first slot is the one shown on the side of least values. -/
theorem min?_eq (heap : MinMaxHeap α cmp) : heap.min? = heap.items[0]? := by
  rw [min?, peek, extreme, Place.ofNode?]
  split
  · rename_i hroot
    rw [Option.map_some, Array.getElem?_eq_getElem (Nat.lt_of_succ_le hroot.2)]
    rfl
  · rename_i hroot
    have hzero : ¬ 0 < heap.items.size := fun hlt => hroot ⟨by decide, hlt⟩
    rw [Option.map_none, Array.getElem?_eq_none (Nat.le_of_not_lt hzero)]

/-- A drain hands back all values and leaves the heap empty but otherwise as it was. -/
theorem drain_spec (side : Side) (heap : MinMaxHeap α cmp) :
    (heap.drain side).1.Perm heap.toList ∧ (heap.drain side).2 = { heap with items := #[] } := by
  fun_induction drain side heap with
  | case1 heap hnone =>
    have hempty := pop_eq_none_iff.mp hnone
    refine ⟨by rw [hempty], ?_⟩
    rw [toList, Array.toList_eq_nil_iff] at hempty
    rw [← hempty]
  | case2 heap value rest hsome hlt values last hdrain ih =>
    rw [hdrain] at ih
    obtain ⟨hperm, rfl⟩ := ih
    refine ⟨(hperm.cons value).trans (toList_of_pop hsome).symm, ?_⟩
    rw [eq_of_pop hsome]

end Heap

end MinMaxHeap

end PrioritySampling
