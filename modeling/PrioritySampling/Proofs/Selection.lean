import Mathlib.Data.Multiset.UnionInter
import PrioritySampling.Proofs.Extremes
import PrioritySampling.Proofs.Histories
/-!
# Keeping the greatest values

A heap with a limit that is offered one value after another has kept, at each moment, as many of
them as its limit allows, and none of those it has turned away or evicted comes after one that
it has kept.  Each decision compares two values only.  What carries the induction is that all
values discarded so far come no later than the least one that is kept.

Between two selections of the same number of values that are greatest in this sense there is no
difference but the choice among equals.  The order in which the values were offered can
therefore decide no more than that.
-/

namespace PrioritySampling

namespace MinMaxHeap

variable {α : Type} {cmp : Comparator α}

/-- A heap that was offered some values and discarded some of them has kept the greatest ones,
as many as its limit allows. -/
structure Selection (count : Nat) (heap : MinMaxHeap α cmp) (offered discarded : List α) :
    Prop where
  sound : heap.Sound
  ordered : heap.Ordered
  limit_eq : heap.limit = .atMost count
  size_eq : heap.size = min offered.length count
  perm : offered.Perm (heap.toList ++ discarded)
  outranked : ∀ gone ∈ discarded, ∀ kept ∈ heap.toList, cmp.greater gone kept = false

section Step

variable {heap : MinMaxHeap α cmp} {count : Nat} {offered discarded : List α}

/-- A heap in order has selected from what it holds. -/
theorem Ordered.selection (h : heap.Ordered) (hsound : heap.Sound)
    (hlimit : heap.limit = .atMost count) : Selection count heap heap.toList [] where
  sound := hsound
  ordered := h
  limit_eq := hlimit
  size_eq := by
    have hsize : heap.toList.length = heap.size := rfl
    have hle := hsound.size_le
    have hcapacity := hsound.capacity_eq count hlimit
    omega
  perm := by rw [List.append_nil]
  outranked := nofun

theorem Selection.limit_ne (h : Selection count heap offered discarded) :
    heap.limit ≠ .unbounded := by
  rw [h.limit_eq]
  exact nofun

theorem Selection.size_eq_count (h : Selection count heap offered discarded)
    (hfull : heap.isFull = true) : heap.size = count := by
  have hcapacity := h.sound.capacity_eq count h.limit_eq
  exact (h.sound.isFull_iff.mp hfull).2.trans hcapacity

theorem Selection.size_lt_count (h : Selection count heap offered discarded)
    (hfull : heap.isFull = false) : heap.size < count := by
  rw [isFull, h.limit_eq] at hfull
  exact Nat.lt_of_not_le (of_decide_eq_false hfull)

/-- As long as there is room nothing is discarded. -/
theorem Selection.discarded_eq_nil (h : Selection count heap offered discarded)
    (hfull : heap.isFull = false) : discarded = [] := by
  have hlt := h.size_lt_count hfull
  have hlength := h.perm.length_eq
  have hsize := h.size_eq
  rw [List.length_append] at hlength
  have hkept : heap.toList.length = heap.size := rfl
  exact List.eq_nil_of_length_eq_zero (by omega)

variable {memory : Memory} {value : α}
  {step : Transition (MinMaxHeap α cmp) α (Except Error Insertion)}

theorem Selection.size_insert (h : Selection count heap offered discarded)
    (hoffer : Offer memory value heap step) :
    step.state.size = min (offered ++ [value]).length count := by
  have hsize := h.size_eq
  rw [List.length_append, List.length_singleton]
  cases hoffer with
  | @inserted capacity hfull hroom =>
    have hlt := h.size_lt_count hfull
    rw [size_push, size_withCapacity]
    omega
  | refused hlimit hfull hreserves => exact absurd hlimit h.limit_ne
  | rejected hfull hleast hvalue =>
    have hcount := h.size_eq_count hfull
    show heap.size = _
    omega
  | replaced hfull hpop hvalue =>
    have hcount := h.size_eq_count hfull
    have hpop := size_of_pop hpop
    rw [size_push]
    omega

variable [Std.TransCmp cmp]

/-- What has been discarded after the next offer comes after none of the values kept then. -/
theorem Selection.outranked_insert (h : Selection count heap offered discarded)
    (hoffer : Offer memory value heap step) :
    ∀ gone ∈ discarded ++ step.discards.map Discard.value, ∀ kept ∈ step.state.toList,
      cmp.greater gone kept = false := by
  intro gone hgone kept hkept
  cases hfull : heap.isFull with
  | false =>
    have hdiscards := hoffer.discards_eq_nil hfull (hoffer.stored h.limit_ne)
    rw [h.discarded_eq_nil hfull, hdiscards] at hgone
    cases hgone
  | true =>
    obtain ⟨last, hdiscards, -, houtranked⟩ := h.ordered.discard_of_offer hoffer hfull
    have hperm := hoffer.perm
    rw [hdiscards, map_value_discard] at hperm hgone
    rcases List.mem_append.mp hgone with hgone | hgone
    · -- The values kept before are outranking already; the new one does if it replaces another.
      rcases List.mem_cons.mp (hperm.mem_iff.mpr (List.mem_cons_of_mem last hkept)) with rfl | hold
      · rcases List.mem_cons.mp (hperm.mem_iff.mpr List.mem_cons_self) with rfl | hlast
        · exact h.outranked gone hgone last (hperm.cons_inv.mem_iff.mpr hkept)
        · have hgone : Side.low.leads cmp gone last := h.outranked gone hgone last hlast
          exact Side.leads_trans hgone (houtranked kept hkept)
      · exact h.outranked gone hgone kept hold
    · obtain rfl := List.mem_singleton.mp hgone
      exact houtranked kept hkept

/-- One more offer keeps the selection. -/
theorem Selection.insert (h : Selection count heap offered discarded) (memory : Memory)
    (value : α) :
    Selection count (heap.insert memory value).state (offered ++ [value])
      (discarded ++ (heap.insert memory value).discards.map Discard.value) := by
  have hoffer := offer_insert h.sound memory value
  exact
    { sound := h.sound.offer hoffer
      ordered := h.ordered.offer hoffer
      limit_eq := hoffer.unchanged.1.trans h.limit_eq
      size_eq := h.size_insert hoffer
      perm := by
        have hperm := hoffer.perm
        generalize heap.insert memory value = step at hperm ⊢
        calc
          (offered ++ [value]).Perm (value :: offered) := List.perm_append_singleton value offered
          _ |>.Perm (value :: heap.toList ++ discarded) := h.perm.cons value
          _ |>.Perm (step.discards.map Discard.value ++ step.state.toList ++ discarded) :=
            hperm.append_right discarded
          _ |>.Perm (step.state.toList ++ (discarded ++ step.discards.map Discard.value)) := by
            rw [List.append_assoc, ← List.append_assoc step.state.toList]
            exact List.perm_append_comm
      outranked := h.outranked_insert hoffer }

/-- A history of single offers keeps the selection. -/
theorem Selection.run (h : Selection count heap offered discarded) {steps : List (Operation α)}
    (hsteps : ∀ step ∈ steps, ∃ memory value, step = .insert memory value) :
    Selection count (heap.run steps).state (offered ++ steps.flatMap Operation.offered)
      (discarded ++ (heap.run steps).discards.map Discard.value) := by
  induction steps generalizing heap offered discarded with
  | nil =>
    rw [List.flatMap_nil, List.append_nil]
    exact (List.append_nil discarded).symm ▸ h
  | cons step later ih =>
    obtain ⟨memory, value, rfl⟩ := hsteps step List.mem_cons_self
    have hlater := ih (h.insert memory value) fun step hstep =>
      hsteps step (List.mem_cons_of_mem _ hstep)
    rw [List.append_assoc, List.append_assoc, ← List.map_append] at hlater
    exact hlater

end Step

/-! ## The choice among equals -/

section Choice

variable {kept gone kept' gone' : Multiset α}

/-- What only the first of two selections keeps, the second has discarded, so that it leads all
that the second keeps. -/
theorem leads_of_mem_sub [DecidableEq α] (hsum : kept + gone = kept' + gone')
    (h' : ∀ a ∈ gone', ∀ b ∈ kept', cmp.greater a b = false) {a b : α} (ha : a ∈ kept - kept')
    (hb : b ∈ kept') : Side.low.leads cmp a b := by
  have hle : kept ≤ kept' + gone' := hsum ▸ Multiset.le_add_right kept gone
  exact h' a (Multiset.mem_of_le (Multiset.sub_le_iff_le_add'.mpr hle) ha) b hb

/-- Two ways to keep the same number of greatest values differ by equal values only. -/
theorem rel_of_outranked [Std.TransCmp cmp] (hsum : kept + gone = kept' + gone')
    (hcard : kept.card = kept'.card)
    (h : ∀ a ∈ gone, ∀ b ∈ kept, cmp.greater a b = false)
    (h' : ∀ a ∈ gone', ∀ b ∈ kept', cmp.greater a b = false) :
    Multiset.Rel (fun a b => cmp a b = .eq) kept kept' := by
  classical
  have hdiffer : ∀ a b, a ∈ kept - kept' → b ∈ kept' - kept → cmp a b = .eq := by
    intro a b ha hb
    have hab := leads_of_mem_sub hsum h' ha (Multiset.mem_of_le (Multiset.sub_le_self _ _) hb)
    have hba := leads_of_mem_sub hsum.symm h hb (Multiset.mem_of_le (Multiset.sub_le_self _ _) ha)
    exact Side.eq_of_leads hab hba
  have hkept := Multiset.sub_add_inter kept kept'
  have hkept' := Multiset.sub_add_inter kept' kept
  rw [Multiset.inter_comm] at hkept'
  have hcard' : (kept - kept').card = (kept' - kept).card := by
    have hsum := congrArg Multiset.card hkept
    have hsum' := congrArg Multiset.card hkept'
    rw [Multiset.card_add] at hsum hsum'
    omega
  have hrel := Multiset.Rel.add (Multiset.rel_of_forall hdiffer hcard')
    (Multiset.rel_refl_of_refl_on (m := kept ∩ kept') fun a _ =>
      (Std.ReflCmp.compare_self : cmp a a = .eq))
  rwa [hkept, hkept'] at hrel

theorem Selection.rel {count : Nat} {heap heap' : MinMaxHeap α cmp}
    {offered offered' discarded discarded' : List α} [Std.TransCmp cmp]
    (h : Selection count heap offered discarded) (h' : Selection count heap' offered' discarded')
    (hoffered : offered'.Perm offered) :
    Multiset.Rel (fun a b => cmp a b = .eq) (heap.toList : Multiset α) heap'.toList := by
  have hsize : heap.size = heap'.size := by
    rw [h.size_eq, h'.size_eq, hoffered.length_eq]
  have hgone : ∀ gone ∈ (discarded : Multiset α), ∀ kept ∈ (heap.toList : Multiset α),
      cmp.greater gone kept = false := h.outranked
  have hgone' : ∀ gone ∈ (discarded' : Multiset α), ∀ kept ∈ (heap'.toList : Multiset α),
      cmp.greater gone kept = false := h'.outranked
  refine rel_of_outranked ?_ ?_ hgone hgone'
  · exact Multiset.coe_eq_coe.mpr ((h.perm.symm.trans hoffered.symm).trans h'.perm)
  · exact hsize

end Choice

/-! ## Every order of offers -/

/-- A new heap has selected from nothing. -/
theorem Made.selection {count : Nat} {start : MinMaxHeap α cmp} (h : start.Made)
    (hlimit : start.limit = .atMost count) : Selection count start [] [] := by
  have hempty := h.toList_eq_nil
  have hself := (ordered_of_toList_eq_nil hempty).selection h.sound hlimit
  rwa [hempty] at hself

theorem Made.selection_run [Std.TransCmp cmp] {count : Nat} {start : MinMaxHeap α cmp}
    (h : start.Made) (hlimit : start.limit = .atMost count) {steps : List (Operation α)}
    (hsteps : ∀ step ∈ steps, ∃ memory value, step = .insert memory value) :
    Selection count (start.run steps).state (steps.flatMap Operation.offered)
      ((start.run steps).discards.map Discard.value) := by
  have hrun := (h.selection hlimit).run hsteps
  rwa [List.nil_append, List.nil_append] at hrun

/-- A new heap with a limit is offered values, singly or several at once.  After each of them it
holds as many as the limit allows, the others are discarded, and of these none comes after one
that it holds.  Any other order of the same offers, to any new heap with that limit, leaves equal
values. -/
theorem selection_of_run [Std.TransCmp cmp] {count : Nat} {start : MinMaxHeap α cmp}
    (hstart : start.Made) (hlimit : start.limit = .atMost count) {history : List (Operation α)}
    (hoffers : ∀ operation ∈ history, operation.isOffer = true) :
    let steps := history.flatMap Operation.singly
    SameRun (start.run steps) (start.run history) ∧
    ∀ k ≤ (history.flatMap Operation.offered).length,
      let offered := (history.flatMap Operation.offered).take k
      let ran := start.run (steps.take k)
      ran.state.size = min k count ∧
      offered.Perm (ran.state.toList ++ ran.discards.map Discard.value) ∧
      (∀ gone ∈ ran.discards, ∀ kept ∈ ran.state.toList,
        cmp.greater gone.value kept = false) ∧
      ∀ (start' : MinMaxHeap α cmp) (history' : List (Operation α)), start'.Made →
        start'.limit = .atMost count → (∀ operation ∈ history', operation.isOffer = true) →
        (history'.flatMap Operation.offered).Perm offered →
        Multiset.Rel (fun a b => cmp a b = .eq) (ran.state.toList : Multiset α)
          (start'.run history').state.toList := by
  intro steps
  have hsteps : ∀ step ∈ steps, ∃ memory value, step = .insert memory value :=
    fun step hstep => Operation.eq_insert_of_mem_flatMap_singly hoffers hstep
  refine ⟨run_flatMap_singly start history, ?_⟩
  intro k hk offered ran
  have hselection : Selection count ran.state offered (ran.discards.map Discard.value) := by
    have htake : ∀ step ∈ steps.take k, ∃ memory value, step = .insert memory value :=
      fun step hstep => hsteps step (List.mem_of_mem_take hstep)
    have hrun := hstart.selection_run hlimit htake
    rwa [Operation.offered_flatMap_take hsteps, Operation.offered_flatMap_singly] at hrun
  refine ⟨?_, hselection.perm, ?_, ?_⟩
  · rw [hselection.size_eq, List.length_take, Nat.min_eq_left hk]
  · intro gone hgone kept hkept
    exact hselection.outranked gone.value (List.mem_map_of_mem hgone) kept hkept
  · intro start' history' hstart' hlimit' hoffers' hoffered
    have hrun := hstart'.selection_run hlimit' fun step hstep =>
      Operation.eq_insert_of_mem_flatMap_singly hoffers' hstep
    rw [Operation.offered_flatMap_singly, (run_flatMap_singly start' history').state_eq] at hrun
    exact hselection.rel hrun hoffered

theorem selection_of_run_evict :
    ∃ ran : Transition (MinMaxHeap Nat compare) Nat (List (Answer Nat)),
      ran.discards.map Discard.value = [1] ∧ ran.state.size = 2 ∧
      ∀ gone ∈ ran.discards, ∀ kept ∈ ran.state.toList,
        Comparator.greater compare gone.value kept = false := by
  have hstart : withLimit (compare : Comparator Nat) .ample (.atMost 2) =
      .ok ⟨#[], 2, .atMost 2, none⟩ := rfl
  let history : List (Operation Nat) := [.extend (fun _ => .ample) [5, 1], .insert .ample 7]
  have hoffers : ∀ operation ∈ history, operation.isOffer = true := by decide
  have h := (selection_of_run (Made.limited hstart) rfl hoffers).2 3 (by decide)
  exact ⟨_, by decide +kernel, h.1, h.2.2.1⟩

end MinMaxHeap

end PrioritySampling
