import PrioritySampling.Proofs.Refusals
/-!
# Merges that break off

A merge offers the events of the donor one by one.  If the receiver has no limit it stores each of
them, until it needs storage that it is refused.  At that point the counts of both reservoirs have
been added up already, the event that failed is gone, and those that would have come after it are
discarded in turn.  So the events that arrive are a first part of the donor's, in its storage
order, the events that are discarded are the rest of them, and the number of dropped events grows
by exactly that rest.

The requests for storage that one merge makes are for different numbers of slots, each twice the
one before.  A memory therefore stands for any pattern of refusals.
-/

namespace PrioritySampling

namespace MinMaxHeap

variable {α : Type} {cmp : Comparator α} {heap : MinMaxHeap α cmp} {memory : Memory}

/-! ## The first refusal -/

/-- The heap once the first `k` of some values have been offered to it. -/
def afterFirst (memory : Memory) (values : List α) (k : Nat) (heap : MinMaxHeap α cmp) :
    MinMaxHeap α cmp :=
  (heap.extend (fun _ => memory) (values.take k)).state

/-- Of some values that are offered, the one with `k` before it is the first that is refused
storage. -/
def RefusedFirst (memory : Memory) (values : List α) (k : Nat) (heap : MinMaxHeap α cmp) : Prop :=
  k < values.length ∧ (heap.afterFirst memory values k).Refused memory ∧
    ∀ j < k, ¬ (heap.afterFirst memory values j).Refused memory

instance (values : List α) (k : Nat) : Decidable (heap.RefusedFirst memory values k) :=
  inferInstanceAs (Decidable (_ ∧ _ ∧ _))

theorem Sound.afterFirst (h : heap.Sound) (memory : Memory) (values : List α) (k : Nat) :
    (heap.afterFirst memory values k).Sound :=
  h.apply (.extend (fun _ => memory) (values.take k))

theorem Sound.hook_afterFirst (h : heap.Sound) (memory : Memory) (values : List α) (k : Nat) :
    (heap.afterFirst memory values k).hook = heap.hook :=
  (step_extend h (fun _ => memory) (values.take k)).hook_eq

/-- Unless some value is the first that is refused storage, none is. -/
theorem not_refused_of_not_refusedFirst {values : List α}
    (h : ∀ k, ¬ heap.RefusedFirst memory values k) :
    ∀ j < values.length, ¬ (heap.afterFirst memory values j).Refused memory := by
  intro j hj
  induction j using Nat.strong_induction_on with
  | _ j ih =>
    exact fun hrefused => h j ⟨hj, hrefused, fun i hi => ih i hi (Nat.lt_trans hi hj)⟩

end MinMaxHeap

namespace Reservoir

variable {π : Type} {reservoir other : Reservoir π} {memory : Memory} {events : List (Event π)}
  {k : Nat}

/-! ## A series of events -/

/-- The reservoir with the first `k` of some events in its heap. -/
def afterFirst (memory : Memory) (events : List (Event π)) (k : Nat) (reservoir : Reservoir π) :
    Reservoir π :=
  { reservoir with heap := reservoir.heap.afterFirst memory events k }

/-- What is stored leaves the counts as they are. -/
theorem offer_of_storage (hsound : reservoir.heap.Sound)
    (hlimit : reservoir.heap.limit = .unbounded) (hgranted : ¬ reservoir.heap.Refused memory)
    (event : Event π) :
    reservoir.offer memory event =
      .quiet (.ok .inserted)
        { reservoir with heap := (reservoir.heap.insert memory event).state } := by
  have hfull : reservoir.heap.isFull = false := by
    rw [MinMaxHeap.isFull, hlimit]
  obtain ⟨hanswer, -, hdiscards⟩ := hsound.insert_of_storage hfull
    (hsound.hasStorage_of_not_refused hlimit hgranted) event
  rw [offer, hanswer, hdiscards]
  rfl

/-- The events before the first that is refused storage are stored, and nothing else happens. -/
theorem absorb_of_granted (hsound : reservoir.heap.Sound)
    (hlimit : reservoir.heap.limit = .unbounded) (hk : k ≤ events.length)
    (hgranted : ∀ j < k, ¬ (reservoir.heap.afterFirst memory events j).Refused memory) :
    reservoir.absorb memory events =
      (reservoir.afterFirst memory events k).absorb memory (events.drop k) := by
  induction events generalizing reservoir k with
  | nil =>
    obtain rfl := Nat.le_zero.mp hk
    rfl
  | cons event later ih =>
    cases k with
    | zero => rfl
    | succ k =>
      have hoffer := offer_of_storage hsound hlimit (hgranted 0 (Nat.zero_lt_succ k)) event
      have hunchanged := (MinMaxHeap.offer_insert hsound memory event).unchanged
      have hnext := sound_offer hsound memory event
      rw [hoffer] at hnext
      rw [absorb, hoffer]
      -- The heap after `j + 1` of the events is the one after `j` of the later ones from here.
      exact ih hnext (hunchanged.1.trans hlimit) (Nat.le_of_succ_le_succ hk) fun j hj =>
        hgranted (j + 1) (Nat.succ_lt_succ hj)

theorem absorb_of_refusedFirst (hsound : reservoir.heap.Sound)
    (hlimit : reservoir.heap.limit = .unbounded)
    (hrefused : reservoir.heap.RefusedFirst memory events k) :
    let after := reservoir.afterFirst memory events k
    reservoir.absorb memory events =
      ⟨.error (.allocationFailed (2 * after.heap.capacity)), after,
        reservoir.heap.discard (events.drop k)⟩ := by
  intro after
  obtain ⟨hk, hrefused, hgranted⟩ := hrefused
  have hinsert := (hsound.afterFirst memory events k).insert_of_refused hrefused events[k]
  have hhook := hsound.hook_afterFirst memory events k
  rw [absorb_of_granted hsound hlimit (Nat.le_of_lt hk) hgranted, List.drop_eq_getElem_cons hk,
    absorb, offer]
  simp only [afterFirst, hinsert, MinMaxHeap.discard, hhook]
  rfl

theorem absorb_of_not_refused (hsound : reservoir.heap.Sound)
    (hlimit : reservoir.heap.limit = .unbounded)
    (hgranted : ∀ k, ¬ reservoir.heap.RefusedFirst memory events k) :
    reservoir.absorb memory events =
      .quiet (.ok ()) (reservoir.afterFirst memory events events.length) := by
  rw [absorb_of_granted hsound hlimit (Nat.le_refl _)
    (MinMaxHeap.not_refused_of_not_refusedFirst hgranted), List.drop_length]
  rfl

/-! ## Merges -/

theorem merge_of_refusedFirst (hsound : reservoir.heap.Sound)
    (hlimit : reservoir.heap.limit = .unbounded)
    (hrefused : reservoir.heap.RefusedFirst memory other.events k) :
    let after := (reservoir.addCounts other).afterFirst memory other.events k
    reservoir.merge memory other =
      ⟨.error (.allocationFailed (2 * after.heap.capacity)), after,
        reservoir.heap.discard (other.events.drop k)⟩ := by
  have hcounted : (reservoir.addCounts other).heap.Sound := hsound
  exact absorb_of_refusedFirst hcounted hlimit hrefused

theorem merge_of_not_refused (hsound : reservoir.heap.Sound)
    (hlimit : reservoir.heap.limit = .unbounded)
    (hgranted : ∀ k, ¬ reservoir.heap.RefusedFirst memory other.events k) :
    reservoir.merge memory other =
      .quiet (.ok ())
        ((reservoir.addCounts other).afterFirst memory other.events other.events.length) := by
  have hcounted : (reservoir.addCounts other).heap.Sound := hsound
  exact absorb_of_not_refused hcounted hlimit hgranted

/-- Refused or not, a receiver without limit counts what both have counted. -/
theorem exists_state_merge (hsound : reservoir.heap.Sound)
    (hlimit : reservoir.heap.limit = .unbounded) (memory : Memory) (other : Reservoir π) :
    ∃ k, (reservoir.merge memory other).state =
      (reservoir.addCounts other).afterFirst memory other.events k := by
  by_cases hrefused : ∃ k, reservoir.heap.RefusedFirst memory other.events k
  · obtain ⟨k, hrefused⟩ := hrefused
    rw [merge_of_refusedFirst hsound hlimit hrefused]
    exact ⟨k, rfl⟩
  · rw [merge_of_not_refused hsound hlimit (not_exists.mp hrefused)]
    exact ⟨_, rfl⟩

/-- A receiver that discards the end of the donor's events has stored those before it. -/
theorem perm_merge_take (hsound : reservoir.heap.Sound)
    (hdiscards : (reservoir.merge memory other).discards =
      reservoir.heap.discard (other.events.drop k)) :
    (reservoir.merge memory other).state.events.Perm
      (reservoir.events ++ other.events.take k) := by
  have hperm := perm_merge hsound memory other
  rw [hdiscards, MinMaxHeap.map_value_discard] at hperm
  refine (List.perm_append_left_iff (other.events.drop k)).mp (hperm.symm.trans ?_)
  calc
    (other.events ++ reservoir.events).Perm
        (other.events.take k ++ (other.events.drop k ++ reservoir.events)) := by
      rw [← List.append_assoc, List.take_append_drop]
    _ |>.Perm (other.events.drop k ++ reservoir.events ++ other.events.take k) :=
      List.perm_append_comm
    _ |>.Perm (other.events.drop k ++ (reservoir.events ++ other.events.take k)) :=
      .of_eq (List.append_assoc _ _ _)

section Counts

variable {ledger ledger' : Ledger}

/-- What a receiver does not store of the donor's events it discards. -/
theorem size_merge_add (hsound : reservoir.heap.Sound)
    (hdiscards : (reservoir.merge memory other).discards =
      reservoir.heap.discard (other.events.drop k)) :
    (reservoir.merge memory other).state.heap.size + (other.events.length - k) =
      reservoir.heap.size + other.heap.size := by
  have hlength := (perm_merge_take hsound hdiscards).length_eq
  rw [List.length_append, List.length_take] at hlength
  simp only [events, MinMaxHeap.toList, Array.length_toList, MinMaxHeap.size] at hlength ⊢
  omega

/-- The difference of events seen and held accounts for the discarded ones even if the counts have
wrapped around. -/
theorem seen_sub_saved_merge (hsound : reservoir.heap.Sound)
    (hdiscards : (reservoir.merge memory other).discards =
      reservoir.heap.discard (other.events.drop k)) :
    (reservoir.merge memory other).state.seen - (reservoir.merge memory other).state.saved =
      (reservoir.seen - reservoir.saved) + (other.seen - other.saved) +
        .ofNat (other.events.length - k) := by
  have hsaved := congrArg UInt64.ofNat (size_merge_add hsound hdiscards)
  rw [UInt64.ofNat_add, UInt64.ofNat_add, ← saved, ← saved, ← saved] at hsaved
  have hseen : (reservoir.merge memory other).state.seen = reservoir.seen + other.seen :=
    seen_absorb memory other.events (reservoir.addCounts other)
  rw [hseen]
  grind

/-- The events that a receiver discards at the end of a merge are counted as dropped, with those
that either reservoir had dropped before. -/
theorem toNat_dropped_merge (h : reservoir.Accounts ledger 0) (h' : other.Accounts ledger' 0)
    (hlt : ledger.seen + ledger'.seen < UInt64.size)
    (hdiscards : (reservoir.merge memory other).discards =
      reservoir.heap.discard (other.events.drop k)) :
    (reservoir.merge memory other).state.dropped.toNat =
      reservoir.dropped.toNat + other.dropped.toNat + (other.events.length - k) := by
  have hsize := size_merge_add h.sound hdiscards
  have hmerged := (h.merge h' memory).exact (by rw [Ledger.seen_merge]; exact hlt)
  have hexact := h.exact (Nat.lt_of_le_of_lt (Nat.le_add_right _ _) hlt)
  have hexact' := h'.exact (Nat.lt_of_le_of_lt (Nat.le_add_left _ _) hlt)
  have hsum := hexact.saved_add_dropped
  have hsum' := hexact'.saved_add_dropped
  have hmergedSum := hmerged.saved_add_dropped
  simp only [stats, hexact.saved_eq, hexact'.saved_eq, hmerged.saved_eq, hexact.seen_eq,
    hexact'.seen_eq, hmerged.seen_eq, Ledger.seen_merge] at hsum hsum' hmergedSum
  omega

/-- The sums of the counts do not wrap around if the events seen by both can be counted. -/
theorem toNat_addCounts (h : reservoir.Accounts ledger 0) (h' : other.Accounts ledger' 0)
    (hlt : ledger.seen + ledger'.seen < UInt64.size) :
    (reservoir.addCounts other).seen.toNat = reservoir.seen.toNat + other.seen.toNat ∧
      (reservoir.addCounts other).rejected.toNat =
        reservoir.rejected.toNat + other.rejected.toNat ∧
      (reservoir.addCounts other).evicted.toNat =
        reservoir.evicted.toNat + other.evicted.toNat := by
  have hexact := h.exact (Nat.lt_of_le_of_lt (Nat.le_add_right _ _) hlt)
  have hexact' := h'.exact (Nat.lt_of_le_of_lt (Nat.le_add_left _ _) hlt)
  have hbalance := hexact.balance
  have hbalance' := hexact'.balance
  rw [← hexact.seen_eq, ← hexact'.seen_eq] at hlt
  simp only [addCounts, UInt64.toNat_add]
  exact ⟨Nat.mod_eq_of_lt hlt, Nat.mod_eq_of_lt (Nat.lt_of_le_of_lt (by omega) hlt),
    Nat.mod_eq_of_lt (Nat.lt_of_le_of_lt (by omega) hlt)⟩

end Counts

end Reservoir

namespace Pool

variable {π : Type} {pool : Pool π} {name donor : String} {member other : Member π}

/-! ## Every history -/

/-- A reservoir without limit takes over the events of another, whatever has happened to the two.
Unless it is refused storage it stores all of them and discards nothing.  If it is, it keeps what
it has and the events before the first that needed the storage; that event and all after it go to
its own hook, in the order in which the donor stored them, and the number of slots it could not
have is reported.  In either case it stays in order, the counts of the two reservoirs are added
up, and the donor is used up without its hook being called.  The dropped events are those that
either reservoir had dropped and those that were discarded now.

The memory of the receiver may be any.  The sums are sums in 64 bits, and they do not wrap around
as long as fewer events have been added to the pool than 64 bits can count. -/
theorem merging_of_run {history : List (Command π)}
    (hnew : ∀ command ∈ history, command.PlacesNew) (hne : name ≠ donor)
    (hmember : (empty.run history).state.members.find? name = some member)
    (hother : (empty.run history).state.members.find? donor = some other)
    (hlimit : member.reservoir.heap.limit = .unbounded) :
    let reservoir := member.reservoir
    let donated := other.reservoir
    let step := (empty.run history).state.apply (.merge name donor)
    step.state.reservoir? donor = none ∧
    ∃ merged, step.state.reservoir? name = some merged ∧ merged.heap.Ordered ∧
      merged.seen = reservoir.seen + donated.seen ∧
      merged.rejected = reservoir.rejected + donated.rejected ∧
      merged.evicted = reservoir.evicted + donated.evicted ∧
      (history.countP Command.isAdd < UInt64.size →
        merged.seen.toNat = reservoir.seen.toNat + donated.seen.toNat ∧
        merged.rejected.toNat = reservoir.rejected.toNat + donated.rejected.toNat ∧
        merged.evicted.toNat = reservoir.evicted.toNat + donated.evicted.toNat) ∧
      (∀ k, reservoir.heap.RefusedFirst member.memory donated.events k →
        merged.heap = reservoir.heap.afterFirst member.memory donated.events k ∧
        merged.events.Perm (reservoir.events ++ donated.events.take k) ∧
        step.answer = .merged (.error (.allocationFailed (2 * merged.heap.capacity))) ∧
        step.discards = (donated.events.drop k).map (⟨reservoir.heap.hook, ·⟩) ∧
        merged.seen - merged.saved = (reservoir.seen - reservoir.saved) +
          (donated.seen - donated.saved) + .ofNat (donated.events.length - k) ∧
        (history.countP Command.isAdd < UInt64.size →
          merged.dropped.toNat = reservoir.dropped.toNat + donated.dropped.toNat +
            (donated.events.length - k))) ∧
      ((∀ k, ¬ reservoir.heap.RefusedFirst member.memory donated.events k) →
        merged.events.Perm (reservoir.events ++ donated.events) ∧
        step.answer = .merged (.ok ()) ∧ step.discards = []) := by
  intro reservoir donated step
  have hkept := kept_empty.run hnew
  rw [Nat.zero_add] at hkept
  have haccounts := hkept.accounts name member hmember
  have haccounts' := hkept.accounts donor other hother
  have hseen := hkept.seen_add_le hne
  have hordered := allOrdered_empty.run orderly_empty hnew name member hmember
  have hstep : step = _ := apply_merge hne hmember hother
  obtain ⟨stored, hstored⟩ :=
    Reservoir.exists_state_merge haccounts.sound hlimit member.memory donated
  obtain ⟨hmerged, hleft⟩ := reservoir?_apply_merge hne hmember hother
  refine ⟨hleft, _, hmerged, Reservoir.ordered_merge haccounts.sound hordered _ _,
    congrArg Reservoir.seen hstored, congrArg Reservoir.rejected hstored,
    congrArg Reservoir.evicted hstored, ?_, ?_, ?_⟩
  · intro hlt
    rw [hstored]
    exact Reservoir.toNat_addCounts haccounts haccounts' (Nat.lt_of_le_of_lt hseen hlt)
  · intro k hrefused
    have hmerge := Reservoir.merge_of_refusedFirst haccounts.sound hlimit hrefused
    have hdiscards := congrArg Transition.discards hmerge
    refine ⟨congrArg (·.state.heap) hmerge,
      Reservoir.perm_merge_take haccounts.sound hdiscards, ?_, ?_,
      Reservoir.seen_sub_saved_merge haccounts.sound hdiscards, fun hlt => ?_⟩
    · rw [hstep, hmerge]
    · rw [hstep]
      exact hdiscards
    · exact Reservoir.toNat_dropped_merge haccounts haccounts' (Nat.lt_of_le_of_lt hseen hlt)
        hdiscards
  · intro hgranted
    have hmerge := Reservoir.merge_of_not_refused haccounts.sound hlimit hgranted
    have hdiscards : (reservoir.merge member.memory donated).discards =
        reservoir.heap.discard (donated.events.drop donated.events.length) := by
      rw [hmerge, List.drop_length]
      rfl
    have hperm := Reservoir.perm_merge_take haccounts.sound hdiscards
    rw [List.take_length] at hperm
    refine ⟨hperm, ?_, ?_⟩
    · rw [hstep, hmerge]
      rfl
    · rw [hstep, hmerge]
      rfl

theorem merging_of_run_refused :
    ∃ (pool : Pool Unit) (merged whole : Reservoir Unit),
      let step := pool.apply (.merge "target" "donor")
      let back := pool.apply (.merge "donor" "target")
      step.state.reservoir? "target" = some merged ∧ merged.events.length = 8 ∧
      step.discards.map (fun gone => (gone.hook, gone.value.timestamp)) =
        [(some "hook", 12), (some "hook", 13)] ∧
      merged.dropped.toNat = 2 ∧
      back.answer = .merged (.ok ()) ∧ back.discards = [] ∧
      back.state.reservoir? "donor" = some whole ∧ whole.events.length = 10 := by
  let event (timestamp : UInt64) : Event Unit := ⟨.zero, timestamp, ()⟩
  let history : List (Command Unit) :=
    [.placeLocal "target" (Reservoir.unlimited.setHook "hook"), .placeShared "donor" .unlimited,
      .add "target" (event 1), .add "target" (event 2), .add "target" (event 3),
      .add "target" (event 4), .add "target" (event 5), .add "target" (event 6),
      .add "target" (event 7), .add "donor" (event 11), .add "donor" (event 12),
      .add "donor" (event 13), .setHook "donor" "unused", .setMemory "target" (.upTo 8)]
  have hnew : ∀ command ∈ history, command.PlacesNew := by
    simp only [history, List.forall_mem_cons, Command.PlacesNew]
    simp [Reservoir.Made.unlimited, Reservoir.Made.hooked]
  let member := ((empty.run history).state.members.find? "target").get (by decide +kernel)
  have hmember : (empty.run history).state.members.find? "target" = some member :=
    (Option.some_get _).symm
  let other := ((empty.run history).state.members.find? "donor").get (by decide +kernel)
  have hother : (empty.run history).state.members.find? "donor" = some other :=
    (Option.some_get _).symm
  have hrefused : member.reservoir.heap.RefusedFirst member.memory other.reservoir.events 1 := by
    decide +kernel
  have hgranted : ∀ k, ¬ other.reservoir.heap.RefusedFirst other.memory
      member.reservoir.events k := by
    have hlt : ∀ k < member.reservoir.events.length,
        ¬ (other.reservoir.heap.afterFirst other.memory member.reservoir.events k).Refused
          other.memory := by
      decide +kernel
    exact fun k hk => hlt k hk.1 hk.2.1
  obtain ⟨-, merged, hmerged, -, -, -, -, -, hrefusal, -⟩ :=
    merging_of_run hnew (by decide) hmember hother (by decide +kernel)
  obtain ⟨-, hperm, -, hdiscards, -, hdropped⟩ := hrefusal 1 hrefused
  obtain ⟨-, whole, hwhole, -, -, -, -, -, -, hgrants⟩ :=
    merging_of_run hnew (by decide) hother hmember (by decide +kernel)
  obtain ⟨hperm', hanswer, hnone⟩ := hgrants hgranted
  refine ⟨_, merged, whole, hmerged, ?_, ?_, ?_, hanswer, hnone, hwhole, ?_⟩
  · exact hperm.length_eq.trans (by decide +kernel)
  · rw [hdiscards]
    decide +kernel
  · exact (hdropped (by decide)).trans (by decide +kernel)
  · exact hperm'.length_eq.trans (by decide +kernel)

end Pool

end PrioritySampling
