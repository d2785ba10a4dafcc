import Mathlib.Data.List.Forall2
import Mathlib.Data.List.Pairwise
import PrioritySampling.Proofs.Extremes
/-!
# Draining in order

A drain pops until nothing is left.  In a heap in order each pop takes a value that leads all that
are left, on the side of the drain, so the values come out sorted from that side: in ascending
order from the side of least values, in descending order from the other.

The two drains of one heap need not be the reverse of each other, since equal values may come in
any order.  But for each value there are as many that come no later than it in one list as in the
other, and this alone fixes a sorted list up to equal values.
-/

namespace PrioritySampling

variable {α : Type} {cmp : Comparator α}

namespace Comparator

/-! ## Consistent comparators -/

/-- The comparators that give a total preorder: the natural order of the values or of a key, any
consistent function, and all of these turned around. -/
inductive Consistent : {α : Type} → Comparator α → Prop
  | natural {α : Type} [Ord α] [Std.TransOrd α] : Consistent (natural : Comparator α)
  | byKey {α β : Type} [Ord β] [Std.TransOrd β] (key : α → β) : Consistent (byKey key)
  | closure {α : Type} (cmp : Comparator α) [Std.TransCmp cmp] : Consistent cmp
  | reverse {α : Type} {cmp : Comparator α} (h : Consistent cmp) : Consistent cmp.reverse

theorem Consistent.transCmp (h : cmp.Consistent) : Std.TransCmp cmp := by
  induction h with
  | natural | byKey | closure => infer_instance
  | reverse h ih => exact Std.TransCmp.opposite

end Comparator

namespace Side

/-! ## Sorted lists -/

section Sorted

variable [Std.TransCmp cmp] {values others : List α} {a b : α}

/-- In a sorted list with a value that comes no later than `a`, the first is such a value. -/
theorem isLE_of_countP_pos (hsorted : (b :: others).Pairwise (low.leads cmp))
    (hcount : 0 < (b :: others).countP fun c => (cmp c a).isLE) : (cmp b a).isLE = true := by
  obtain ⟨c, hc, hle⟩ := List.countP_pos_iff.mp hcount
  rcases List.mem_cons.mp hc with rfl | hc
  · exact hle
  · have hlead := (List.pairwise_cons.mp hsorted).1 c hc
    exact Std.TransCmp.isLE_trans (low_leads_iff.mp hlead) hle

theorem countP_isLE_pos (a : α) (values : List α) :
    0 < (a :: values).countP fun c => (cmp c a).isLE := by
  have hself : cmp a a = .eq := Std.ReflCmp.compare_self
  refine List.countP_pos_iff.mpr ⟨a, List.mem_cons_self, ?_⟩
  rw [hself]
  rfl

/-- Two sorted lists are equal up to equal values if they have the same number of values up to any
given one. -/
theorem forall₂_of_countP_eq (hvalues : values.Pairwise (low.leads cmp))
    (hothers : others.Pairwise (low.leads cmp))
    (hcount : ∀ x, values.countP (fun c => (cmp c x).isLE) =
      others.countP fun c => (cmp c x).isLE) :
    List.Forall₂ (fun a b => cmp a b = .eq) values others := by
  induction values generalizing others with
  | nil =>
    cases others with
    | nil => exact .nil
    | cons b others =>
      have hpos : 0 < (b :: others).countP fun c => (cmp c b).isLE := countP_isLE_pos b others
      rw [← hcount b] at hpos
      exact absurd hpos (Nat.lt_irrefl 0)
  | cons a values ih =>
    cases others with
    | nil =>
      have hpos : 0 < (a :: values).countP fun c => (cmp c a).isLE := countP_isLE_pos a values
      rw [hcount a] at hpos
      exact absurd hpos (Nat.lt_irrefl 0)
    | cons b others =>
      have hba : (cmp b a).isLE = true :=
        isLE_of_countP_pos hothers (hcount a ▸ countP_isLE_pos a values)
      have hab : (cmp a b).isLE = true :=
        isLE_of_countP_pos hvalues (hcount b ▸ countP_isLE_pos b others)
      have heq : cmp a b = .eq := eq_of_leads (low_leads_iff.mpr hab) (low_leads_iff.mpr hba)
      refine .cons heq (ih hvalues.of_cons hothers.of_cons fun x => ?_)
      have hx := hcount x
      rw [List.countP_cons, List.countP_cons, Std.TransCmp.congr_left heq] at hx
      exact Nat.add_right_cancel hx

/-- A list that is sorted from the side of greatest values is sorted from the other in reverse. -/
theorem pairwise_low_reverse (h : values.Pairwise (high.leads cmp)) :
    values.reverse.Pairwise (low.leads cmp) :=
  List.pairwise_reverse.mpr (h.imp fun hlead => leads_flip.mp hlead)

/-- Two ways to sort values from one side are the same up to equal values. -/
theorem forall₂_of_perm {side : Side} (hperm : values.Perm others)
    (hvalues : values.Pairwise (side.leads cmp)) (hothers : others.Pairwise (side.leads cmp)) :
    List.Forall₂ (fun a b => cmp a b = .eq) values others := by
  cases side with
  | low => exact forall₂_of_countP_eq hvalues hothers fun x => hperm.countP_eq _
  | high =>
    refine List.forall₂_reverse_iff.mp (forall₂_of_countP_eq (pairwise_low_reverse hvalues)
      (pairwise_low_reverse hothers) fun x => ?_)
    rw [List.countP_reverse, List.countP_reverse]
    exact hperm.countP_eq _

/-- Values that are sorted from both sides are the same up to equal values, once one of the lists
is reversed. -/
theorem forall₂_reverse_of_perm (hperm : values.Perm others)
    (hvalues : values.Pairwise (low.leads cmp)) (hothers : others.Pairwise (high.leads cmp)) :
    List.Forall₂ (fun a b => cmp a b = .eq) values others.reverse :=
  forall₂_of_perm (hperm.trans others.reverse_perm.symm) hvalues (pairwise_low_reverse hothers)

/-- If no two of the values are equal there is one way only to sort them. -/
theorem eq_of_perm {side : Side} (hperm : values.Perm others)
    (hvalues : values.Pairwise (side.leads cmp)) (hothers : others.Pairwise (side.leads cmp))
    (hdistinct : values.Pairwise fun a b => cmp a b ≠ .eq) : values = others := by
  have : Std.Symm fun a b => cmp a b ≠ .eq :=
    ⟨fun a b hne heq => hne (Std.OrientedCmp.eq_comm.mp heq)⟩
  refine hperm.eq_of_pairwise (fun a b ha hb hab hba => ?_) hvalues hothers
  by_contra hne
  refine hdistinct.forall ha (hperm.mem_iff.mpr hb) hne ?_
  cases side with
  | low => exact eq_of_leads hab hba
  | high => exact eq_of_leads (leads_flip.mpr hba) (leads_flip.mpr hab)

/-- A list comes out of a sort in the order that the sort goes by. -/
theorem pairwise_mergeSort (values : List α) :
    (values.mergeSort fun a b => (cmp b a).isLE).Pairwise (high.leads cmp) := by
  have htrans : ∀ a b c : α, (cmp b a).isLE = true → (cmp c b).isLE = true →
      (cmp c a).isLE = true := fun a b c hab hbc => Std.TransCmp.isLE_trans hbc hab
  have htotal : ∀ a b : α, ((cmp b a).isLE || (cmp a b).isLE) = true := by
    intro a b
    have hswap : cmp b a = (cmp a b).swap := Std.OrientedCmp.eq_swap
    rw [hswap]
    cases cmp a b <;> rfl
  exact (List.pairwise_mergeSort htrans htotal values).imp fun hle => high_leads_iff.mpr hle

end Sorted

end Side

namespace MinMaxHeap

/-! ## Drains -/

/-- A drain of a heap in order hands the values over sorted from its side. -/
theorem Ordered.pairwise_drain [Std.TransCmp cmp] {heap : MinMaxHeap α cmp} (h : heap.Ordered)
    (side : Side) : (heap.drain side).1.Pairwise (side.leads cmp) := by
  fun_induction drain side heap with
  | case1 heap hnone => exact .nil
  | case2 heap value rest hsome hlt values last hdrain ih =>
    have hperm := (drain_spec side rest).1
    have hsorted := ih (h.pop hsome)
    rw [hdrain] at hperm hsorted
    refine List.pairwise_cons.mpr ⟨fun other hother => ?_, hsorted⟩
    refine h.leads_of_peek (peek_of_pop hsome) ?_
    exact (toList_of_pop hsome).mem_iff.mpr (List.mem_cons_of_mem value (hperm.mem_iff.mp hother))

/-- Whatever has happened to a heap, its values come out in ascending order when it is used up, and
in descending order when it is drained, which leaves it empty but otherwise as it was and discards
nothing.  The two orders are the reverse of each other, up to equal values. -/
theorem sorting_of_run (hcmp : cmp.Consistent) {start : MinMaxHeap α cmp} (hstart : start.Made)
    (history : List (Operation α)) :
    let heap := (start.run history).state
    let descending := (heap.drain .high).1
    (heap.toSorted.Perm heap.toList ∧
      heap.toSorted.Pairwise fun earlier later => cmp.greater earlier later = false) ∧
    (descending.Perm heap.toList ∧
      descending.Pairwise fun earlier later => cmp.less earlier later = false) ∧
    heap.apply .drainDescending = ⟨.drained descending, { heap with items := #[] }, []⟩ ∧
    List.Forall₂ (fun a b => cmp a b = .eq) heap.toSorted descending.reverse := by
  intro heap descending
  have := hcmp.transCmp
  have hordered : heap.Ordered :=
    Ordered.run (ordered_of_toList_eq_nil hstart.toList_eq_nil) hstart.sound history
  have hlow : heap.toSorted.Pairwise (Side.low.leads cmp) := hordered.pairwise_drain .low
  have hhigh : descending.Pairwise (Side.high.leads cmp) := hordered.pairwise_drain .high
  have hascending : heap.toSorted.Perm heap.toList := (drain_spec .low heap).1
  obtain ⟨hdescending, hrest⟩ := drain_spec .high heap
  refine ⟨⟨hascending, hlow⟩, ⟨hdescending, hhigh⟩, ?_, ?_⟩
  · rw [apply]
    simp only [hrest]
    rfl
  · exact Side.forall₂_reverse_of_perm (hascending.trans hdescending.symm) hlow hhigh

theorem sorting_of_run_ties :
    let cmp : Comparator (Nat × Nat) := (Comparator.byKey Prod.fst).reverse
    ∃ heap : MinMaxHeap (Nat × Nat) cmp,
      heap.toList = [(7, 0), (2, 3), (4, 2), (4, 1)] ∧
      heap.toSorted.Perm heap.toList ∧
      (heap.toSorted.Pairwise fun earlier later => cmp.greater earlier later = false) ∧
      List.Forall₂ (fun a b => cmp a b = .eq) heap.toSorted (heap.drain .high).1.reverse := by
  intro cmp
  have hcmp : cmp.Consistent := .reverse (.byKey Prod.fst)
  have h := sorting_of_run hcmp .unlimited
    [.insert .ample (4, 1), .extend (fun _ => .ample) [(9, 9), (4, 2)], .pop .low,
      .insert .ample (7, 0), .insert .ample (2, 3)]
  exact ⟨_, by decide +kernel, h.1.1, h.1.2, h.2.2.2⟩

end MinMaxHeap

end PrioritySampling
