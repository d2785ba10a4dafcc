import PrioritySampling.Proofs.Replay
/-!
# Admission

What becomes of an offered value is settled by the limit, by the number of values that are there,
and by one comparison with the least of them.  A heap with room stores the value and discards
nothing.  A full one either turns the value away and stays as it is, or exchanges its least value
for the new one; the pop and the push by which it does so leave no other trace than that exchange.

A reservoir counts the three outcomes apart, and answers whether the number of events that it holds
has stayed the same.
-/

namespace PrioritySampling

namespace MinMaxHeap

variable {α : Type} {cmp : Comparator α} {heap : MinMaxHeap α cmp} {memory : Memory} {value : α}

/-! ## Room -/

theorem isFull_eq_false_iff :
    heap.isFull = false ↔ heap.limit = .unbounded ∨ heap.size < heap.bound := by
  rw [isFull, bound]
  cases heap.limit with
  | unbounded => exact ⟨fun _ => .inl rfl, fun _ => rfl⟩
  | atMost count => simp only [Limit.toNat, decide_eq_false_iff_not, Nat.not_le, reduceCtorEq,
      false_or]

/-- A sound heap is full if it holds exactly as many values as its limit says. -/
theorem Sound.isFull_iff_limit (h : heap.Sound) :
    heap.isFull = true ↔ heap.limit = .atMost heap.size := by
  refine ⟨fun hfull => (h.size_eq_of_isFull hfull).symm, fun hlimit => ?_⟩
  rw [isFull, hlimit]
  exact decide_eq_true (Nat.le_refl _)

/-- The storage that one more value needs is there or will be granted. -/
def HasStorage (memory : Memory) (heap : MinMaxHeap α cmp) : Prop :=
  heap.size < heap.capacity ∨ memory.reserves (2 * heap.capacity) = true

/-- A heap that is not full stores what it is offered if there is storage for it. -/
theorem Sound.insert_of_storage (h : heap.Sound) (hfull : heap.isFull = false)
    (hstorage : heap.HasStorage memory) (value : α) :
    (heap.insert memory value).answer = .ok .inserted ∧
      (heap.insert memory value).state.toList.Perm (value :: heap.toList) ∧
      (heap.insert memory value).discards = [] := by
  have hoffer := offer_insert h memory value
  generalize heap.insert memory value = step at hoffer ⊢
  cases hoffer with
  | inserted hnot hroom => exact ⟨rfl, toList_push _ value, rfl⟩
  | refused hlimit hsize hreserves =>
    rcases hstorage with hlt | hgranted
    · exact absurd hsize (Nat.ne_of_lt hlt)
    · rw [hreserves] at hgranted
      cases hgranted
  | rejected hfull' hleast hvalue =>
    rw [hfull] at hfull'
    cases hfull'
  | replaced hfull' hpop hvalue =>
    rw [hfull] at hfull'
    cases hfull'

/-! ## Full heaps -/

/-- A full heap turns away what does not come after the least value that it shows. -/
theorem insert_of_not_greater {least : α} (hfull : heap.isFull = true)
    (hleast : heap.min? = some least) (hvalue : cmp.greater value least = false)
    (memory : Memory) :
    heap.insert memory value = ⟨.ok .rejected, heap, heap.discard [value]⟩ := by
  rw [insert, if_pos hfull, admits_of_min? hleast, hvalue]
  rfl

/-- A full heap exchanges the least value that it shows for one that comes after it. -/
theorem Sound.insert_of_greater {least : α} (h : heap.Sound) (hfull : heap.isFull = true)
    (hleast : heap.min? = some least) (hvalue : cmp.greater value least = true)
    (memory : Memory) :
    (heap.insert memory value).answer = .ok .replaced ∧
      (value :: heap.toList).Perm (least :: (heap.insert memory value).state.toList) ∧
      (heap.insert memory value).discards = heap.discard [least] := by
  have hoffer := offer_insert h memory value
  have hperm := hoffer.perm
  generalize heap.insert memory value = step at hoffer hperm ⊢
  cases hoffer with
  | inserted hnot hroom =>
    rw [hfull] at hnot
    cases hnot
  | refused hlimit hsize hreserves =>
    rw [isFull, hlimit] at hfull
    cases hfull
  | @rejected shown hfull hshown hnot =>
    rw [hleast, Option.some.injEq] at hshown
    rw [hshown, hnot] at hvalue
    cases hvalue
  | @replaced shown rest hfull hpop hgreater =>
    have hshown : heap.min? = some shown := peek_of_pop hpop
    rw [hleast, Option.some.injEq] at hshown
    subst hshown
    rw [map_value_discard] at hperm
    exact ⟨rfl, hperm, rfl⟩

/-- An offer to a heap that is full, or has storage for the value, does not fail. -/
theorem Sound.exists_outcome (h : heap.Sound)
    (hstorage : heap.limit = .atMost heap.size ∨ heap.HasStorage memory) (value : α) :
    ∃ outcome, (heap.insert memory value).answer = .ok outcome := by
  have hoffer := offer_insert h memory value
  cases hanswer : (heap.insert memory value).answer with
  | ok outcome => exact ⟨outcome, rfl⟩
  | error failure =>
    exfalso
    rcases hstorage with hlimit | hstorage
    · exact hoffer.stored (by rw [hlimit]; exact nofun) failure hanswer
    · cases hfull : heap.isFull with
      | true =>
        have hlimit := (h.isFull_iff.mp hfull).1
        exact hoffer.stored hlimit failure hanswer
      | false =>
        rw [(h.insert_of_storage hfull hstorage value).1] at hanswer
        cases hanswer

/-- No value of the heap comes before this one of its values. -/
def Least (heap : MinMaxHeap α cmp) (least : α) : Prop :=
  least ∈ heap.toList ∧ ∀ other ∈ heap.toList, cmp.less other least = false

section Order

variable [Std.TransCmp cmp] {least shown : α}

theorem Ordered.least_of_min? (h : heap.Ordered) (hshown : heap.min? = some shown) :
    heap.Least shown :=
  ⟨mem_of_peek hshown, fun _ hother =>
    Side.leads_iff_not_ahead.mp (h.leads_of_peek hshown hother)⟩

/-- A least value is as good as another. -/
theorem Least.greater_eq (hleast : heap.Least least) (hshown : heap.Least shown) (value : α) :
    cmp.greater value least = cmp.greater value shown := by
  have heq : cmp least shown = .eq :=
    Side.eq_of_leads (Side.leads_iff_not_ahead.mpr (hleast.2 shown hshown.1))
      (Side.leads_iff_not_ahead.mpr (hshown.2 least hleast.1))
  rw [Comparator.greater, Comparator.greater, Std.TransCmp.congr_right heq]

/-- The least value after an exchange does not come before the one that was exchanged. -/
theorem Ordered.min?_insert (h : heap.Ordered) (hsound : heap.Sound) (hfull : heap.isFull = true)
    (hleast : heap.min? = some least) (hvalue : cmp.greater value least = true)
    (memory : Memory) :
    ∃ next, (heap.insert memory value).state.min? = some next ∧ cmp.less next least = false := by
  have hoffer := offer_insert hsound memory value
  obtain ⟨gone, hgone, hsize, hkept⟩ := h.discard_of_offer hoffer hfull
  obtain ⟨-, -, hdiscards⟩ := hsound.insert_of_greater hfull hleast hvalue memory
  obtain rfl : gone = least := by
    have hvalues := congrArg (List.map Discard.value) (hgone.symm.trans hdiscards)
    rw [map_value_discard, map_value_discard] at hvalues
    exact List.singleton_inj.mp hvalues
  have hafter : (heap.insert memory value).state.isFull = true := by
    rw [isFull, hoffer.unchanged.1, hsize]
    exact hfull
  obtain ⟨next, rest, hpop⟩ := (hsound.offer hoffer).exists_pop_of_isFull hafter .low
  have hnext : (heap.insert memory value).state.min? = some next := peek_of_pop hpop
  have hlead : Side.low.leads cmp gone next := hkept next (mem_of_peek hnext)
  exact ⟨next, hnext, Side.leads_iff_not_ahead.mp hlead⟩

end Order

end MinMaxHeap

namespace Reservoir

variable {π : Type} {reservoir : Reservoir π} {memory : Memory} {event : Event π}
  {outcome : Insertion}

/-! ## Counts -/

/-- The numbers of events saved, rejected and evicted, after one more with the given outcome. -/
def countsAfter (reservoir : Reservoir π) : Insertion → UInt64 × UInt64 × UInt64
  | .inserted => (reservoir.saved + 1, reservoir.rejected, reservoir.evicted)
  | .rejected => (reservoir.saved, reservoir.rejected + 1, reservoir.evicted)
  | .replaced => (reservoir.saved, reservoir.rejected, reservoir.evicted + 1)

/-- Each outcome raises one count. -/
theorem counts_add (hsound : reservoir.heap.Sound)
    (houtcome : (reservoir.heap.insert memory event).answer = .ok outcome) :
    let after := (reservoir.add memory event).state
    (after.saved, after.rejected, after.evicted) = reservoir.countsAfter outcome := by
  intro after
  have hsaved : after.saved = .ofNat (reservoir.heap.insert memory event).state.size := by
    rw [saved, heap_add]
  have hrejected : after.rejected = (reservoir.tally outcome).rejected ∧
      after.evicted = (reservoir.tally outcome).evicted := by
    simp only [after, add, offer, houtcome]
    cases outcome with
    | _ => exact ⟨rfl, rfl⟩
  have hoffer := MinMaxHeap.offer_insert hsound memory event
  rw [hsaved, hrejected.1, hrejected.2]
  generalize reservoir.heap.insert memory event = step at hoffer houtcome ⊢
  cases hoffer with
  | inserted hfull hroom =>
    cases houtcome
    rw [MinMaxHeap.size_push, MinMaxHeap.size_withCapacity, ofNat_succ]
    rfl
  | refused hlimit hsize hreserves => cases houtcome
  | rejected hfull hleast hvalue =>
    cases houtcome
    rfl
  | replaced hfull hpop hvalue =>
    cases houtcome
    rw [MinMaxHeap.size_push, MinMaxHeap.size_of_pop hpop]
    rfl

/-- The number of events held stays the same for an event that is displaced or displaces another,
and for no other. -/
theorem displaced_iff_saved_eq (reservoir : Reservoir π) (outcome : Insertion) :
    outcome.displaced = true ↔ (reservoir.countsAfter outcome).1 = reservoir.saved := by
  cases outcome with
  | inserted =>
    refine ⟨nofun, fun heq => ?_⟩
    have hone : (1 : UInt64) = 0 := by
      rw [← UInt64.add_right_inj reservoir.saved, UInt64.add_zero]
      exact heq
    cases hone
  | rejected | replaced => exact ⟨fun _ => rfl, fun _ => rfl⟩

end Reservoir

/-! ## Every history -/

namespace Pool

/-- A value offered to a heap, whatever has happened to the heap before, is stored if there is room
for it; a full heap turns it away unless it comes after the least value, which it replaces then.
What is turned away or replaced goes to the hook, and nothing else does.  A reservoir, whatever has
happened to it, counts the outcome, and answers that an event was displaced if and only if the
number of events that it holds is still the same. -/
theorem admission_of_run :
    (∀ {α : Type} {cmp : Comparator α} [Std.TransCmp cmp] {start : MinMaxHeap α cmp},
      start.Made → ∀ (history : List (MinMaxHeap.Operation α)) (memory : Memory) (value : α),
      let heap := (start.run history).state
      let step := heap.insert memory value
      (heap.limit = .unbounded ∨ heap.size < heap.bound → heap.HasStorage memory →
        step.answer = .ok .inserted ∧ step.state.toList.Perm (value :: heap.toList) ∧
        step.discards = []) ∧
      (heap.limit = .atMost heap.size → (∃ least, heap.Least least) ∧
        ∀ least, heap.Least least →
          (cmp.greater value least = false →
            step.answer = .ok .rejected ∧ step.state = heap ∧
            step.discards = [⟨heap.hook, value⟩]) ∧
          (cmp.greater value least = true → ∃ evicted next,
            heap.min? = some evicted ∧ step.answer = .ok .replaced ∧
            (value :: heap.toList).Perm (evicted :: step.state.toList) ∧
            step.discards = [⟨heap.hook, evicted⟩] ∧
            step.state.min? = some next ∧ cmp.less next evicted = false))) ∧
    ∀ {π : Type} {history : List (Command π)} {name : String} {reservoir : Reservoir π},
      (∀ command ∈ history, command.PlacesNew) →
      (empty.run history).state.reservoir? name = some reservoir →
      ∀ (memory : Memory) (event : Event π),
      reservoir.heap.limit = .atMost reservoir.heap.size ∨ reservoir.heap.HasStorage memory →
      let step := reservoir.add memory event
      ∃ outcome, (reservoir.heap.insert memory event).answer = .ok outcome ∧
        step.answer = .ok outcome.displaced ∧
        (step.answer = .ok true ↔ step.state.saved = reservoir.saved) ∧
        step.state.seen = reservoir.seen + 1 ∧
        (step.state.saved, step.state.rejected, step.state.evicted) =
          reservoir.countsAfter outcome := by
  constructor
  · intro α cmp _ start hstart history memory value heap step
    have hsound : heap.Sound := hstart.sound.run history
    have hordered : heap.Ordered :=
      .run (MinMaxHeap.ordered_of_toList_eq_nil hstart.toList_eq_nil) hstart.sound history
    refine ⟨fun hroom hstorage => ?_, fun hlimit => ?_⟩
    · exact hsound.insert_of_storage (MinMaxHeap.isFull_eq_false_iff.mpr hroom) hstorage value
    · have hfull := hsound.isFull_iff_limit.mpr hlimit
      obtain ⟨shown, rest, hpop⟩ := hsound.exists_pop_of_isFull hfull .low
      have hshown : heap.min? = some shown := MinMaxHeap.peek_of_pop hpop
      have hleast := hordered.least_of_min? hshown
      refine ⟨⟨shown, hleast⟩, fun least h => ?_⟩
      rw [h.greater_eq hleast value]
      refine ⟨fun hvalue => ?_, fun hvalue => ?_⟩
      · have hstep : step = ⟨.ok .rejected, heap, heap.discard [value]⟩ :=
          MinMaxHeap.insert_of_not_greater hfull hshown hvalue memory
        rw [hstep]
        exact ⟨rfl, rfl, rfl⟩
      · obtain ⟨hanswer, hperm, hdiscards⟩ :=
          hsound.insert_of_greater hfull hshown hvalue memory
        obtain ⟨next, hnext, hless⟩ := hordered.min?_insert hsound hfull hshown hvalue memory
        exact ⟨shown, next, hshown, hanswer, hperm, hdiscards, hnext, hless⟩
  · intro π history name reservoir hnew hreached memory event hstorage step
    rw [reservoir?, Option.map_eq_some_iff] at hreached
    obtain ⟨member, hmember, rfl⟩ := hreached
    have hsound : member.reservoir.heap.Sound := (orderly_empty.run hnew).sound name member hmember
    obtain ⟨outcome, houtcome⟩ := hsound.exists_outcome hstorage event
    have hanswer : step.answer = .ok outcome.displaced := by
      rw [Reservoir.answer_add, houtcome]
      rfl
    have hcounts := Reservoir.counts_add hsound houtcome
    refine ⟨outcome, houtcome, hanswer, ?_, Reservoir.seen_add memory event _, hcounts⟩
    rw [hanswer, Except.ok.injEq, Reservoir.displaced_iff_saved_eq member.reservoir]
    exact Eq.congr_left (congrArg Prod.fst hcounts).symm

theorem admission_of_run_replaced :
    ∃ (heap : MinMaxHeap Nat compare) (evicted next : Nat),
      heap.toList = [2, 8, 5] ∧ heap.hook = some "hook" ∧ heap.min? = some evicted ∧
      (heap.insert .ample 4).answer = .ok .replaced ∧
      (heap.insert .ample 4).discards = [⟨heap.hook, evicted⟩] ∧
      (heap.insert .ample 4).state.min? = some next ∧
      Comparator.less compare next evicted = false ∧
    ∃ reservoir : Reservoir Unit, reservoir.events.length = 2 ∧
      let step := reservoir.add .ample ⟨.zero, 4, ()⟩
      (step.answer = .ok true ↔ step.state.saved = reservoir.saved) := by
  have hlimited : MinMaxHeap.withLimit (compare : Comparator Nat) .ample (.atMost 3) =
      .ok ⟨#[], 3, .atMost 3, none⟩ := rfl
  have hstart := (MinMaxHeap.Made.limited hlimited).hooked "hook"
  have hheap := admission_of_run.1 hstart [.insert .ample 5, .insert .ample 9, .pop .high,
    .extend (fun _ => .ample) [8, 2, 1]] .ample 4
  obtain ⟨evicted, next, hmin, hanswer, -, hdiscards, hnext, hless⟩ :=
    ((hheap.2 (by decide +kernel)).2 2 ⟨by decide +kernel, by decide +kernel⟩).2 (by decide)
  refine ⟨_, evicted, next, by decide +kernel, by decide +kernel, hmin, hanswer, hdiscards, hnext,
    hless, ?_⟩
  let history : List (Command Unit) :=
    [.placeShared "shared" .unlimited, .add "shared" ⟨.zero, 1, ()⟩, .add "shared" ⟨.zero, 2, ()⟩]
  have hnew : ∀ command ∈ history, command.PlacesNew := by
    simp only [history, List.forall_mem_cons, Command.PlacesNew]
    exact ⟨.unlimited, trivial, trivial, List.forall_mem_nil _⟩
  have hfound : ((empty.run history).state.reservoir? "shared").map
      (fun reservoir => (reservoir.events.length, reservoir.heap.capacity)) = some (2, 8) := by
    decide +kernel
  obtain ⟨reservoir, hreservoir, hsizes⟩ := Option.map_eq_some_iff.mp hfound
  rw [Prod.mk.injEq] at hsizes
  have hstorage : reservoir.heap.HasStorage .ample := by
    have hsize : reservoir.heap.size = 2 := hsizes.1
    exact .inl (by omega)
  obtain ⟨outcome, -, -, hsaved, -, -⟩ :=
    admission_of_run.2 hnew hreservoir .ample ⟨.zero, 4, ()⟩ (.inr hstorage)
  exact ⟨reservoir, hsizes.1, hsaved⟩

end Pool

end PrioritySampling
