import Mathlib.Tactic.Common
import PrioritySampling.Proofs.Histories
import PrioritySampling.Proofs.Storage
/-!
# Where the values go

Each value that is offered to a heap is in the end handed back, discarded, or still in the heap,
and only one of these.  A single step discards values only where it turns one away, evicts one,
has no room for one, or clears the heap, as `Disposes` lists.  Whatever it discards goes to the
hook that is installed at that moment, and so does what a heap still holds when it is dropped.

The comparator may be as inconsistent as it likes and the memory may refuse what it likes: no
step of the argument looks at either.
-/

namespace PrioritySampling

namespace MinMaxHeap

variable {α : Type} {cmp : Comparator α}

/-! ## Hooks -/

/-- The hook after an operation, given the one before it. -/
def Operation.hookAfter (before : Option Hook) : Operation α → Option Hook
  | .setHook hook => some hook
  | .clearHook => none
  | _ => before

/-- The hook after a history is the last one that was installed, if it has not been removed. -/
def installed (first : Option Hook) (history : List (Operation α)) : Option Hook :=
  history.foldl Operation.hookAfter first

/-- The discarded values that a hook received. -/
def delivered (discards : List (Discard α)) : List α :=
  (discards.filter (·.hook.isSome)).map Discard.value

/-- The values that were discarded while there was no hook. -/
def lost (discards : List (Discard α)) : List α :=
  (discards.filter (·.hook.isNone)).map Discard.value

theorem delivered_append_lost_perm (discards : List (Discard α)) :
    (delivered discards ++ lost discards).Perm (discards.map Discard.value) := by
  have hnone : (fun gone : Discard α => gone.hook.isNone) = fun gone => !gone.hook.isSome := by
    funext gone
    cases gone.hook <;> rfl
  rw [delivered, lost, hnone, ← List.map_append]
  exact (List.filter_append_perm _ discards).map Discard.value

section Step

variable {heap : MinMaxHeap α cmp} {operation : Operation α}
  {step : Transition (MinMaxHeap α cmp) α (Answer α)}

theorem Step.hook_eq (h : Step heap operation step) :
    step.state.hook = operation.hookAfter heap.hook := by
  induction h with
  | offered hoffer => exact hoffer.unchanged.2
  | extended hoffer hrest ih => exact ih.trans hoffer.unchanged.2
  | popped hpop =>
    rw [eq_of_pop hpop]
    rfl
  | _ => rfl

theorem Sound.hook_run (h : heap.Sound) (history : List (Operation α)) :
    (heap.run history).state.hook = installed heap.hook history := by
  induction history generalizing heap with
  | nil => rfl
  | cons operation later ih =>
    rw [installed, List.foldl_cons, ← (step_apply h operation).hook_eq]
    exact ih (h.apply operation)

/-! ## Nothing is lost, nothing is doubled -/

/-- After one operation the values from before and those offered are handed back, discarded, or
in the heap. -/
theorem Step.perm (h : Step heap operation step) :
    (heap.toList ++ operation.offered).Perm
      (step.answer.values ++ (step.discards.map Discard.value ++ step.state.toList)) := by
  classical
  induction h with
  | offered hoffer => exact (List.perm_append_singleton _ _).trans hoffer.perm
  | extended hoffer hrest ih =>
    simp only [Operation.offered, Transition.after, List.map_append] at ih ⊢
    refine List.perm_iff_count.mpr fun other => ?_
    have hfirst := hoffer.perm.count_eq other
    have hlater := ih.count_eq other
    simp only [List.count_append, List.count_cons] at hfirst hlater ⊢
    omega
  | popped hpop => exact (List.Perm.of_eq (List.append_nil _)).trans (toList_of_pop hpop)
  | drained hperm => exact hperm.symm.append_right []
  | @cleared heap =>
    show (heap.toList ++ []).Perm ([] ++ ((heap.discard heap.toList).map Discard.value ++ []))
    rw [map_value_discard]
    exact .refl _
  | exhausted | missed | hooked | unhooked => exact .of_eq (List.append_nil _)

theorem Sound.run_perm (h : heap.Sound) (history : List (Operation α)) :
    (heap.toList ++ history.flatMap Operation.offered).Perm (returned (heap.run history).answer ++
      ((heap.run history).discards.map Discard.value ++ (heap.run history).state.toList)) := by
  classical
  induction history generalizing heap with
  | nil =>
    rw [List.flatMap_nil, List.append_nil]
    exact .refl _
  | cons operation later ih =>
    have hfirst := (step_apply h operation).perm
    have hlater := ih (h.apply operation)
    simp only [MinMaxHeap.run, returned, List.flatMap_cons, List.map_append]
    refine List.perm_iff_count.mpr fun other => ?_
    have hcount := hfirst.count_eq other
    have hcount' := hlater.count_eq other
    simp only [returned, List.count_append] at hcount hcount' ⊢
    omega

/-! ## Reasons to discard -/

/-- The values that a single step discards, by what it does and answers. -/
inductive Disposes (heap : MinMaxHeap α cmp) : Operation α → Answer α → List α → Prop
  | inserted {memory : Memory} {value : α} :
      Disposes heap (.insert memory value) (.offered (.ok .inserted)) []
  | rejected {memory : Memory} {value : α} :
      Disposes heap (.insert memory value) (.offered (.ok .rejected)) [value]
  | evicted {memory : Memory} {value least : α} (hleast : heap.min? = some least) :
      Disposes heap (.insert memory value) (.offered (.ok .replaced)) [least]
  | refused {memory : Memory} {value : α}
      (hreserves : memory.reserves (2 * heap.capacity) = false) :
      Disposes heap (.insert memory value)
        (.offered (.error (.allocationFailed (2 * heap.capacity)))) [value]
  | cleared : Disposes heap .clear .done heap.toList
  | popped {side : Side} {value : Option α} : Disposes heap (.pop side) (.taken value) []
  | drained {values : List α} : Disposes heap .drainDescending (.drained values) []
  | hooked {hook : Hook} : Disposes heap (.setHook hook) .done []
  | unhooked : Disposes heap .clearHook .done []

/-- What a single step discards goes to the hook that is installed before it. -/
theorem Step.disposes (h : Step heap operation step) (hsingle : operation.singly = [operation]) :
    ∃ values, Disposes heap operation step.answer values ∧ step.discards = heap.discard values := by
  cases h with
  | offered hoffer =>
    cases hoffer with
    | inserted hfull hroom => exact ⟨[], .inserted, rfl⟩
    | refused hlimit hsize hreserves => exact ⟨[_], .refused hreserves, rfl⟩
    | rejected hfull hleast hvalue => exact ⟨[_], .rejected, rfl⟩
    | replaced hfull hpop hvalue => exact ⟨[_], .evicted (peek_of_pop hpop), rfl⟩
  | exhausted => cases hsingle
  | extended hoffer hrest =>
    rw [Operation.singly, List.mapIdx_cons] at hsingle
    cases hsingle
  | popped hpop => exact ⟨[], .popped, rfl⟩
  | missed hpop => exact ⟨[], .popped, rfl⟩
  | drained hperm => exact ⟨[], .drained, rfl⟩
  | cleared => exact ⟨heap.toList, .cleared, rfl⟩
  | hooked => exact ⟨[], .hooked, rfl⟩
  | unhooked => exact ⟨[], .unhooked, rfl⟩

end Step

/-! ## The end of a heap -/

/-- What may become of a heap after its history. -/
inductive Ending where
  /-- It stays. -/
  | kept
  /-- Its owner takes all values in storage order. -/
  | listed
  /-- Its owner takes all values in ascending order. -/
  | sorted
  /-- It is dropped. -/
  | dropped
  deriving DecidableEq

/-- The end of a heap: the values handed back, what is left, and what is discarded when that is
dropped. -/
def finish (heap : MinMaxHeap α cmp) : Ending → Transition (MinMaxHeap α cmp) α (List α)
  | .kept => .quiet [] heap
  | .listed =>
    let rest : MinMaxHeap α cmp := { heap with items := #[] }
    ⟨heap.toList, rest, rest.drop⟩
  | .sorted =>
    let rest := (heap.drain .low).2
    ⟨heap.toSorted, rest, rest.drop⟩
  | .dropped => ⟨[], { heap with items := #[] }, heap.drop⟩

section Finish

variable (heap : MinMaxHeap α cmp)

/-- Only a heap that is dropped discards what it holds. -/
theorem discards_finish (ending : Ending) :
    (heap.finish ending).discards =
      heap.discard (if ending = .dropped then heap.toList else []) := by
  cases ending with
  | kept => rfl
  | listed => rfl
  | sorted =>
    rw [finish, (drain_spec .low heap).2]
    rfl
  | dropped => rfl

theorem finish_perm (ending : Ending) :
    heap.toList.Perm ((heap.finish ending).answer ++
      ((heap.finish ending).discards.map Discard.value ++ (heap.finish ending).state.toList)) := by
  rw [discards_finish, map_value_discard]
  cases ending with
  | kept => exact .refl _
  | listed => exact .of_eq (List.append_nil heap.toList).symm
  | sorted =>
    obtain ⟨hperm, hrest⟩ := drain_spec .low heap
    show heap.toList.Perm (heap.toSorted ++ ([] ++ (heap.drain .low).2.toList))
    rw [hrest]
    exact hperm.symm.trans (.of_eq (List.append_nil heap.toSorted).symm)
  | dropped => exact .of_eq (List.append_nil heap.toList).symm

end Finish

/-! ## Every history -/

/-- The values offered to a new heap are handed back, discarded, or there at the end. -/
theorem Made.run_finish_perm {start : MinMaxHeap α cmp} (h : start.Made)
    (history : List (Operation α)) (ending : Ending) :
    let ran := start.run history
    let last := ran.state.finish ending
    (history.flatMap Operation.offered).Perm (returned ran.answer ++ last.answer ++
      ((ran.discards ++ last.discards).map Discard.value ++ last.state.toList)) := by
  classical
  intro ran last
  have hrun : (history.flatMap Operation.offered).Perm
      (returned ran.answer ++ (ran.discards.map Discard.value ++ ran.state.toList)) := by
    have hrun := h.sound.run_perm history
    rwa [h.toList_eq_nil, List.nil_append] at hrun
  have hfinish : ran.state.toList.Perm
      (last.answer ++ (last.discards.map Discard.value ++ last.state.toList)) :=
    finish_perm ran.state ending
  refine List.perm_iff_count.mpr fun value => ?_
  have hrun := hrun.count_eq value
  have hfinish := hfinish.count_eq value
  simp only [List.map_append, List.count_append] at hrun hfinish ⊢
  omega

/-- Of all values ever offered to a heap, each has been handed back, was delivered to a hook, was
lost for want of one, or is still there, and only one of these.  What is discarded goes to the
hook that is installed at that moment: by a single step for a reason that `Disposes` lists, and
at the end in storage order if the heap is dropped. -/
theorem disposal_of_run {start : MinMaxHeap α cmp} (hstart : start.Made)
    (history : List (Operation α)) (ending : Ending) :
    let ran := start.run history
    let last := ran.state.finish ending
    let handed := returned ran.answer ++ last.answer
    let discards := ran.discards ++ last.discards
    let steps := history.flatMap Operation.singly
    (history.flatMap Operation.offered).Perm
      (handed ++ (delivered discards ++ lost discards ++ last.state.toList)) ∧
    (SameRun (start.run steps) ran ∧
      ∀ before step after, steps = before ++ step :: after →
        let heap := (start.run before).state
        ∃ values, Disposes heap step (heap.apply step).answer values ∧
          (start.run (before ++ [step])).discards =
            (start.run before).discards ++ values.map (⟨installed start.hook before, ·⟩)) ∧
    last.discards =
      (if ending = .dropped then ran.state.toList else []).map
        (⟨installed start.hook history, ·⟩) ∧
    ((history.flatMap Operation.offered).Nodup →
      ∀ value ∈ handed, ∀ gone ∈ discards, gone.value ≠ value) := by
  intro ran last handed discards steps
  have hsound := hstart.sound
  have hsplit := delivered_append_lost_perm discards
  have hperm : (history.flatMap Operation.offered).Perm
      (handed ++ (delivered discards ++ lost discards ++ last.state.toList)) :=
    (hstart.run_finish_perm history ending).trans
      ((hsplit.symm.append_right last.state.toList).append_left handed)
  refine ⟨hperm, ⟨run_flatMap_singly start history, ?_⟩, ?_, ?_⟩
  · intro before step after hsteps heap
    have hmem : step ∈ steps := hsteps ▸ List.mem_append_right before List.mem_cons_self
    obtain ⟨operation, -, hstep⟩ := List.mem_flatMap.mp hmem
    have hsingle := Operation.singly_of_mem_singly hstep
    obtain ⟨values, hdisposes, hdiscards⟩ := (step_apply (hsound.run before) step).disposes hsingle
    refine ⟨values, hdisposes, ?_⟩
    rw [run_append, ← hsound.hook_run before]
    simp only [run, Transition.quiet, List.append_nil]
    exact congrArg _ hdiscards
  · rw [← hsound.hook_run history]
    exact discards_finish ran.state ending
  · intro hnodup value hvalue gone hgone heq
    have hall := (List.nodup_append.mp (hperm.nodup hnodup)).2.2
    refine hall value hvalue gone.value (List.mem_append_left _ ?_) heq.symm
    exact hsplit.mem_iff.mpr (List.mem_map_of_mem hgone)

theorem disposal_of_run_dropped :
    ∃ start : MinMaxHeap Nat compare, start.Made ∧
      let ran := start.run [.extend (fun _ => .ample) [5, 1, 7], .clearHook, .pop .high]
      let last := ran.state.finish .dropped
      ran.discards ++ last.discards = [⟨some "first", 1⟩, ⟨none, 5⟩] ∧
        ∀ value ∈ returned ran.answer ++ last.answer, ∀ gone ∈ ran.discards ++ last.discards,
          gone.value ≠ value := by
  have hlimited : withLimit (compare : Comparator Nat) .ample (.atMost 2) =
      .ok ⟨#[], 2, .atMost 2, none⟩ := rfl
  have hstart := (Made.limited hlimited).hooked "first"
  have h := disposal_of_run hstart
    [.extend (fun _ => .ample) [5, 1, 7], .clearHook, .pop .high] .dropped
  exact ⟨_, hstart, by decide +kernel, h.2.2.2 (by decide)⟩

end MinMaxHeap

end PrioritySampling
