import PrioritySampling.Proofs.Selection
/-!
# What is enough to keep

Several heaps may share the work of keeping the greatest of many values, each with a limit of its
own.  For the one that collects everything in the end, a value may be given up early as long as
its limit can be filled with other values that are still kept and come no earlier.  `Suffices`
says this of all values that have been given up.  It is the invariant of sharing: kept values may
be brought together from several heaps, a heap whose limit is wide enough may give up its least
value, and once no more are kept than the limit allows, they are the greatest.
-/

namespace PrioritySampling

/-! ## Limits in order -/

namespace Limit

/-- The second limit allows whatever the first allows. -/
def Within : Limit → Limit → Prop
  | _, unbounded => True
  | unbounded, atMost _ => False
  | atMost count, atMost wider => count ≤ wider

instance : LE Limit := ⟨Within⟩

/-- How many of so many values a limit leaves. -/
def clip : Limit → Nat → Nat
  | unbounded, n => n
  | atMost count, n => min n count

theorem atMost_le_atMost {count wider : Nat} : atMost count ≤ atMost wider ↔ count ≤ wider :=
  Iff.rfl

theorem le_refl (limit : Limit) : limit ≤ limit := by
  cases limit with
  | unbounded => trivial
  | atMost count => exact Nat.le_refl count

end Limit

namespace MinMaxHeap

variable {α : Type} {cmp : Comparator α} {limit : Limit} {value gone : α}

/-! ## Values that can be spared -/

/-- The limit can be filled with kept values that come no earlier than the one that is gone. -/
def Spared (cmp : Comparator α) (limit : Limit) (kept : List α) (gone : α) : Prop :=
  match limit with
  | .unbounded => False
  | .atMost count => count ≤ kept.countP fun value => !cmp.greater gone value

/-- What has been given up of the offered values can be spared. -/
def Suffices (cmp : Comparator α) (limit : Limit) (offered kept : List α) : Prop :=
  ∃ gone, offered.Perm (kept ++ gone) ∧ ∀ value ∈ gone, Spared cmp limit kept value

section Spared

variable {top rest kept kept' : List α}

theorem Spared.of_perm (h : Spared cmp limit kept gone) (hperm : kept.Perm kept') :
    Spared cmp limit kept' gone := by
  unfold Spared at *
  split at h
  · exact h
  · rwa [← hperm.countP_eq]

/-- More values spare no fewer. -/
theorem Spared.append (h : Spared cmp limit kept gone) (rest : List α) :
    Spared cmp limit (kept ++ rest) gone := by
  unfold Spared at *
  split at h
  · exact h
  · rw [List.countP_append]
    omega

/-- As many values as the limit allows spare one that comes after none of them. -/
theorem spared_of_outranked (hle : limit ≤ .atMost top.length)
    (houtranked : ∀ value ∈ top, cmp.greater gone value = false) (rest : List α) :
    Spared cmp limit (top ++ rest) gone := by
  cases limit with
  | unbounded => exact hle
  | atMost count =>
    have hcount : top.countP (fun value => !cmp.greater gone value) = top.length := by
      refine List.countP_eq_length.mpr fun value hvalue => ?_
      rw [houtranked value hvalue]
      rfl
    have hle := Limit.atMost_le_atMost.mp hle
    show count ≤ (top ++ rest).countP _
    rw [List.countP_append, hcount]
    omega

/-- Giving up a value that comes after none of enough others takes nothing from what they spare. -/
theorem Spared.discard [Std.TransCmp cmp] (h : Spared cmp limit (value :: (top ++ rest)) gone)
    (hle : limit ≤ .atMost top.length)
    (houtranked : ∀ other ∈ top, cmp.greater value other = false) :
    Spared cmp limit (top ++ rest) gone := by
  cases hgone : cmp.greater gone value with
  | false =>
    refine spared_of_outranked hle (fun other hother => ?_) rest
    have hvalue : Side.low.leads cmp value other := houtranked other hother
    exact Side.leads_trans (show Side.low.leads cmp gone value from hgone) hvalue
  | true =>
    unfold Spared at *
    split at h
    · exact h
    · rwa [List.countP_cons_of_neg (by simp [hgone])] at h

end Spared

/-! ## Sufficient values -/

section Suffices

variable {offered offered' kept kept' top rest : List α}

theorem suffices_self (offered : List α) : Suffices cmp limit offered offered :=
  ⟨[], by rw [List.append_nil], nofun⟩

theorem Suffices.of_perm (h : Suffices cmp limit offered kept) (hoffered : offered.Perm offered')
    (hkept : kept.Perm kept') : Suffices cmp limit offered' kept' := by
  obtain ⟨gone, hperm, hspared⟩ := h
  refine ⟨gone, (hoffered.symm.trans hperm).trans (hkept.append_right gone), ?_⟩
  exact fun value hvalue => (hspared value hvalue).of_perm hkept

/-- Kept values of two origins suffice together. -/
theorem Suffices.append (h : Suffices cmp limit offered kept)
    (h' : Suffices cmp limit offered' kept') :
    Suffices cmp limit (offered ++ offered') (kept ++ kept') := by
  classical
  obtain ⟨gone, hperm, hspared⟩ := h
  obtain ⟨gone', hperm', hspared'⟩ := h'
  refine ⟨gone ++ gone', ?_, fun value hvalue => ?_⟩
  · refine List.perm_iff_count.mpr fun other => ?_
    have hcount := hperm.count_eq other
    have hcount' := hperm'.count_eq other
    simp only [List.count_append] at hcount hcount' ⊢
    omega
  · rcases List.mem_append.mp hvalue with hvalue | hvalue
    · exact (hspared value hvalue).append kept'
    · exact ((hspared' value hvalue).append kept).of_perm List.perm_append_comm

/-- A value may be given up if enough others come no earlier. -/
theorem Suffices.discard [Std.TransCmp cmp]
    (h : Suffices cmp limit offered (value :: (top ++ rest)))
    (hle : limit ≤ .atMost top.length)
    (houtranked : ∀ other ∈ top, cmp.greater value other = false) :
    Suffices cmp limit offered (top ++ rest) := by
  obtain ⟨gone, hperm, hspared⟩ := h
  refine ⟨value :: gone, ?_, fun other hother => ?_⟩
  · exact hperm.trans List.perm_middle.symm
  · rcases List.mem_cons.mp hother with rfl | hother
    · exact spared_of_outranked hle houtranked rest
    · exact (hspared other hother).discard hle houtranked

variable {heap : MinMaxHeap α cmp} {memory : Memory}
  {step : Transition (MinMaxHeap α cmp) α (Except Error Insertion)}

/-- A heap whose limit is wide enough may be offered one of the kept values, if it has room for
it.  The others of them wait in `rest`. -/
theorem Suffices.offer [Std.TransCmp cmp]
    (h : Suffices cmp limit offered (value :: (heap.toList ++ rest))) (hsound : heap.Sound)
    (hordered : heap.Ordered) (hle : limit ≤ heap.limit) (hoffer : Offer memory value heap step)
    (hstored : ∀ failure, step.answer ≠ .error failure) :
    Suffices cmp limit offered (step.state.toList ++ rest) := by
  have hperm := hoffer.perm
  cases hfull : heap.isFull with
  | true =>
    obtain ⟨gone, hdiscards, hsize, houtranked⟩ := hordered.discard_of_offer hoffer hfull
    rw [hdiscards, map_value_discard] at hperm
    refine Suffices.discard (h.of_perm (.refl _) (hperm.append_right rest)) ?_ houtranked
    show limit ≤ .atMost step.state.size
    rw [hsize, hsound.size_eq_of_isFull hfull]
    exact hle
  | false =>
    rw [hoffer.discards_eq_nil hfull hstored] at hperm
    exact h.of_perm (.refl _) (hperm.append_right rest)

/-- No more values than the limit allows are the greatest of those offered, and as many as
there can be. -/
theorem Suffices.selects (h : Suffices cmp limit offered kept)
    (hle : Limit.atMost kept.length ≤ limit) :
    kept.length = limit.clip offered.length ∧
      ∃ gone, offered.Perm (kept ++ gone) ∧
        ∀ a ∈ gone, ∀ b ∈ kept, cmp.greater a b = false := by
  obtain ⟨gone, hperm, hspared⟩ := h
  have hlength := hperm.length_eq
  rw [List.length_append] at hlength
  cases limit with
  | unbounded =>
    have hnil : gone = [] := List.eq_nil_iff_forall_not_mem.mpr hspared
    subst hnil
    exact ⟨hlength.symm, [], hperm, nofun⟩
  | atMost count =>
    have hle : kept.length ≤ count := hle
    have hcount : ∀ a ∈ gone, kept.countP (fun b => !cmp.greater a b) = kept.length ∧
        count = kept.length := by
      intro a ha
      have hspared : count ≤ kept.countP _ := hspared a ha
      have hmost := List.countP_le_length (p := fun b => !cmp.greater a b) (l := kept)
      omega
    refine ⟨?_, gone, hperm, fun a ha b hb => ?_⟩
    · show kept.length = min offered.length count
      rcases List.eq_nil_or_concat gone with rfl | ⟨rest, last, rfl⟩
      · simp only [List.length_nil] at hlength
        omega
      · have hlast := (hcount last (by simp)).2
        omega
    · have hall := List.countP_eq_length.mp (hcount a ha).1 b hb
      rwa [Bool.not_eq_true'] at hall

end Suffices

end MinMaxHeap

end PrioritySampling
