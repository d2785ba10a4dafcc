import PrioritySampling.Proofs.Admission
/-!
# Refused storage

An offer fails in one situation only: the heap has no limit, all of its slots are in use, and the
memory does not grant twice as many.  It leaves no trace in the heap then.  The value is gone to the
hook, and everything else is as it was, so that one pop makes room for the next value, whatever the
memory does.

`extend` cannot report a failure.  It comes to the same as offers of one value each whose answers
are ignored, so that every value is stored or discarded, however many of the requests are refused.
-/

namespace PrioritySampling

namespace MinMaxHeap

variable {α : Type} {cmp : Comparator α} {heap : MinMaxHeap α cmp} {memory : Memory}

/-! ## Failing offers -/

/-- One more value would need storage that the memory refuses. -/
def Refused (memory : Memory) (heap : MinMaxHeap α cmp) : Prop :=
  heap.limit = .unbounded ∧ heap.size = heap.capacity ∧ memory.reserves (2 * heap.capacity) = false

instance : Decidable (heap.Refused memory) :=
  inferInstanceAs (Decidable (_ ∧ _ ∧ _))

/-- A refused offer discards the value and leaves the heap as it was. -/
theorem Sound.insert_of_refused (h : heap.Sound) (hrefused : heap.Refused memory) (value : α) :
    heap.insert memory value =
      ⟨.error (.allocationFailed (2 * heap.capacity)), heap, heap.discard [value]⟩ := by
  obtain ⟨hlimit, hsize, hreserves⟩ := hrefused
  have hnot : heap.isFull = false := by rw [isFull, hlimit]
  rw [insert, if_neg (Bool.eq_false_iff.mp hnot), store, h.makeRoom_of_eq hlimit hsize, hreserves]
  rfl

/-- No offer fails for any other reason. -/
theorem Sound.exists_error_iff (h : heap.Sound) (memory : Memory) (value : α) :
    (∃ failure, (heap.insert memory value).answer = .error failure) ↔ heap.Refused memory := by
  constructor
  · rintro ⟨failure, hfailure⟩
    obtain ⟨hlimit, hsize, hreserves, -⟩ :=
      (offer_insert h memory value).refusal_of_error hfailure
    exact ⟨hlimit, hsize, hreserves⟩
  · intro hrefused
    rw [h.insert_of_refused hrefused value]
    exact ⟨_, rfl⟩

/-- A heap without limit finds storage for a value unless it is refused. -/
theorem Sound.hasStorage_of_not_refused (h : heap.Sound) (hlimit : heap.limit = .unbounded)
    (hgranted : ¬ heap.Refused memory) : heap.HasStorage memory := by
  rcases Nat.lt_or_eq_of_le h.size_le with hlt | hsize
  · exact .inl hlt
  · refine .inr (Bool.eq_true_of_not_eq_false fun hreserves => ?_)
    exact hgranted ⟨hlimit, hsize, hreserves⟩

/-! ## Series of offers -/

theorem discard_append (heap : MinMaxHeap α cmp) (values later : List α) :
    heap.discard (values ++ later) = heap.discard values ++ heap.discard later :=
  List.map_append

/-- What an offer discards goes to the hook of the heap. -/
theorem Offer.discards_eq {value : α}
    {step : Transition (MinMaxHeap α cmp) α (Except Error Insertion)}
    (h : Offer memory value heap step) :
    step.discards = heap.discard (step.discards.map Discard.value) := by
  cases h with
  | inserted => rfl
  | refused | rejected | replaced => rw [map_value_discard]

theorem Sound.discards_extend (h : heap.Sound) (supply : Nat → Memory) (values : List α) :
    (heap.extend supply values).discards =
      heap.discard ((heap.extend supply values).discards.map Discard.value) := by
  induction values generalizing heap supply with
  | nil => rfl
  | cons value later ih =>
    have hoffer := offer_insert h (supply 0) value
    have hlater := ih (h.offer hoffer) fun k => supply (k + 1)
    rw [discard, hoffer.unchanged.2, ← discard] at hlater
    simp only [extend, Transition.after, List.map_append, discard_append]
    rw [← hoffer.discards_eq, ← hlater]

/-- Of several values that are offered, each is stored or sent to the hook, and so is each that was
there before. -/
theorem Sound.extend_perm (h : heap.Sound) (supply : Nat → Memory) (values : List α) :
    (values ++ heap.toList).Perm ((heap.extend supply values).discards.map Discard.value ++
      (heap.extend supply values).state.toList) :=
  List.perm_append_comm.trans (step_extend h supply values).perm

/-! ## Every history -/

/-- After whatever has happened to a heap, an offer fails if and only if the heap has no limit, no
slot free, and is refused twice the storage that it has.  Then it reports that number of slots, the
heap is as it was, and the value goes to the hook.  Several values offered at once come to the same
as one offer for each, whatever these answer, and each value is stored or goes to the hook.  A pop
makes room in a heap that was refused storage, and the next value is stored there in any memory. -/
theorem refusal_of_run {start : MinMaxHeap α cmp} (hstart : start.Made)
    (history : List (Operation α)) :
    let heap := (start.run history).state
    (∀ (memory : Memory) (value : α),
      let step := heap.insert memory value
      ((∃ failure, step.answer = .error failure) ↔
        heap.limit = .unbounded ∧ heap.size = heap.capacity ∧
          memory.reserves (2 * heap.capacity) = false) ∧
      ∀ failure, step.answer = .error failure →
        failure = .allocationFailed (2 * heap.capacity) ∧ step.state = heap ∧
          step.discards = [⟨heap.hook, value⟩]) ∧
    (∀ (supply : Nat → Memory) (values : List α),
      let step := heap.extend supply values
      let ran := heap.run (values.mapIdx fun k value => .insert (supply k) value)
      step.state = ran.state ∧ step.discards = ran.discards ∧
      ∃ gone, step.discards = gone.map (⟨heap.hook, ·⟩) ∧
        (values ++ heap.toList).Perm (gone ++ step.state.toList)) ∧
    ∀ (memory : Memory) (value : α) (failure : Error),
      (heap.insert memory value).answer = .error failure → ∀ side : Side,
      ∃ taken rest, (heap.insert memory value).state.pop side = some (taken, rest) ∧
        ∀ (memory' : Memory) (next : α),
          (rest.insert memory' next).answer = .ok .inserted ∧
          (rest.insert memory' next).state.toList.Perm (next :: rest.toList) ∧
          (rest.insert memory' next).discards = [] := by
  intro heap
  have hsound : heap.Sound := hstart.sound.run history
  have hrefused : ∀ {memory : Memory} {value : α} {failure : Error},
      (heap.insert memory value).answer = .error failure → heap.Refused memory :=
    fun hfailure => (hsound.exists_error_iff _ _).mp ⟨_, hfailure⟩
  refine ⟨fun memory value => ⟨hsound.exists_error_iff memory value, ?_⟩, ?_, ?_⟩
  · intro failure hfailure
    have hstep := hsound.insert_of_refused (hrefused hfailure) value
    rw [hstep] at hfailure ⊢
    exact ⟨(Except.error.inj hfailure).symm, rfl, rfl⟩
  · intro supply values step ran
    obtain ⟨hstate, hdiscards, -⟩ := run_singly heap (.extend supply values)
    refine ⟨hstate.symm, (hdiscards.trans (List.append_nil _)).symm, _,
      hsound.discards_extend supply values, hsound.extend_perm supply values⟩
  · intro memory value failure hfailure side
    obtain ⟨hlimit, hsize, hreserves⟩ := hrefused hfailure
    rw [hsound.insert_of_refused ⟨hlimit, hsize, hreserves⟩ value]
    have hpos : 0 < heap.size := by
      have hchunk := hsound.chunk_le hlimit
      rw [chunk] at hchunk
      omega
    obtain ⟨taken, rest, hpop⟩ := exists_pop_of_size_pos hpos side
    have hroom := hsound.size_lt_of_pop hpop
    have hfull : rest.isFull = false := by
      rw [eq_of_pop hpop, isFull, hlimit]
    exact ⟨taken, rest, hpop, fun memory' next =>
      (hsound.pop hpop).insert_of_storage hfull (.inl hroom) next⟩

theorem refusal_of_run_refilled :
    ∃ heap rest : MinMaxHeap Nat compare, heap.size = 8 ∧
      (heap.insert (.upTo 8) 12).state = heap ∧
      (heap.insert (.upTo 8) 12).discards = [⟨heap.hook, 12⟩] ∧
      (heap.insert (.upTo 8) 12).state.pop .low = some (1, rest) ∧
      (rest.insert (.upTo 0) 13).answer = .ok .inserted ∧
      ∃ gone, (heap.extend (fun k => .upTo (8 * k)) [14, 15, 16]).discards =
          gone.map (⟨heap.hook, ·⟩) ∧
        gone = [14, 15] := by
  have hstart : Made ((empty compare : MinMaxHeap Nat compare).setHook "hook") :=
    .hooked .unlimited "hook"
  have h := refusal_of_run hstart
    [.extend (fun _ => .upTo 8) [5, 3, 8, 1, 9, 2, 7, 4, 6, 10], .pop .high,
      .insert (.upTo 0) 11]
  have hfailure := (h.1 (.upTo 8) 12).1.mpr (by decide +kernel)
  obtain ⟨failure, hfailure⟩ := hfailure
  obtain ⟨-, hstate, hdiscards⟩ := (h.1 (.upTo 8) 12).2 failure hfailure
  obtain ⟨taken, rest, hpop, hnext⟩ := h.2.2 (.upTo 8) 12 failure hfailure .low
  obtain ⟨-, -, gone, hgone, -⟩ := h.2.1 (fun k => .upTo (8 * k)) [14, 15, 16]
  refine ⟨_, rest, by decide +kernel, hstate, hdiscards, ?_, (hnext (.upTo 0) 13).1, gone, hgone,
    ?_⟩
  · have htaken : taken = 1 := Option.some.inj
      ((congrArg (Option.map Prod.fst) hpop).symm.trans (by decide +kernel))
    rw [hpop, htaken]
  · have hvalues := congrArg (List.map Discard.value) hgone
    exact (map_value_discard _ gone).symm.trans (hvalues.symm.trans (by decide +kernel))

end MinMaxHeap

end PrioritySampling
