import PrioritySampling.Proofs.Construction
import PrioritySampling.Proofs.Replay
/-!
# Where a failure comes from

A failure can arise while a heap or a reservoir is being made or while one is in use, and
`Error.isConstruction` is meant to tell the two apart.  It looks at the kind of failure alone.
That is enough for a failure in use, which is always a lack of storage, but not for one in the
making: new heaps reserve their slots as well, and whoever is refused them is told the same as
somebody whose heap could not grow.

So the test is right about every failure in the making but those for lack of storage, and wrong
about each of these.
-/

namespace PrioritySampling

namespace Error

/-! ## Failures in the making -/

/-- Something could not be made, in one of the ways there are, and this is the failure. -/
inductive Unmade (memory : Memory) (failure : Error) : Prop
  | withLimit {α : Type} {cmp : Comparator α} {limit : Limit}
      (h : MinMaxHeap.withLimit cmp memory limit = .error failure)
  | bounded {α : Type} {cmp : Comparator α} {count : Nat}
      (h : MinMaxHeap.bounded cmp memory count = .error failure)
  | heapBuilt {α : Type} {cmp : Comparator α} {plan : MinMaxHeap.Blueprint}
      (h : plan.build cmp memory = .error failure)
  | ofCapacity {π : Type} {capacity : Nat}
      (h : (Reservoir.ofCapacity memory capacity : Except Error (Reservoir π)) = .error failure)
  | ofConfig {π : Type} {config : Config}
      (h : (Reservoir.ofConfig memory config : Except Error (Reservoir π)) = .error failure)
  | reservoirBuilt {π : Type} {plan : Reservoir.Blueprint .sized}
      (h : (plan.build memory : Except Error (Reservoir π)) = .error failure)
  | shared {π : Type} {pool : Pool π} {name : String} {capacity : Nat}
      (h : pool.placeNewShared memory name capacity = .error failure)

/-- The failures that there are in the making. -/
inductive Obstacle (memory : Memory) : Error → Prop
  | bound {bound : Int} (h : bound < 2) : Obstacle memory (.invalidBound bound)
  | name : Obstacle memory .blankName
  | storage {slots : Nat} (hslots : 2 ≤ slots) (hreserves : memory.reserves slots = false) :
      Obstacle memory (.allocationFailed slots)

theorem eq_error_of_map {ρ σ : Type} {result : Except Error ρ} {f : ρ → σ} {failure : Error}
    (h : result.map f = .error failure) : result = .error failure := by
  cases result with
  | error other =>
    cases h
    rfl
  | ok value => cases h

section Obstacles

variable {memory : Memory} {failure : Error} {limit : Limit}

theorem obstacle_of_initialSlots (h : MinMaxHeap.initialSlots limit = .error failure) :
    Obstacle memory failure := by
  cases limit with
  | unbounded => cases h
  | atMost count =>
    rw [MinMaxHeap.initialSlots] at h
    split at h
    · rename_i hcount
      cases h
      exact .bound (Int.ofNat_lt.mpr hcount)
    · cases h

theorem two_le_of_initialSlots {slots : Nat} (h : MinMaxHeap.initialSlots limit = .ok slots) :
    2 ≤ slots := by
  cases limit with
  | unbounded =>
    cases h
    decide
  | atMost count =>
    rw [MinMaxHeap.initialSlots] at h
    split at h
    · cases h
    · cases h
      omega

theorem obstacle_of_claim (h : Ground.claim memory limit = .error failure) :
    Obstacle memory failure := by
  cases hslots : MinMaxHeap.initialSlots limit with
  | error other =>
    rw [Ground.claim, hslots] at h
    cases h
    exact obstacle_of_initialSlots hslots
  | ok slots =>
    rw [Ground.claim_of_initialSlots hslots] at h
    split at h
    · cases h
    · rename_i hreserves
      cases h
      exact .storage (two_le_of_initialSlots hslots) (Bool.eq_false_iff.mpr hreserves)

theorem obstacle_of_ofInt (bound : Int) (h : Limit.ofInt bound = .error failure) :
    Obstacle memory failure := by
  rw [Limit.ofInt_eq] at h
  split at h
  · rename_i hbound
    cases h
    exact .bound (by omega)
  · cases h

theorem obstacle_of_limit {config : Config} (h : config.limit = .error failure) :
    Obstacle memory failure := by
  rw [Config.limit_eq_ite] at h
  split at h
  · cases h
    exact .name
  · exact obstacle_of_ofInt config.capacity h

/-- What is checked first and then claimed can meet with an obstacle in either place. -/
theorem obstacle_of_bind {check : Except Error Limit}
    (hcheck : ∀ other, check = .error other → Obstacle memory other)
    (h : check.bind (Ground.claim memory) = .error failure) : Obstacle memory failure := by
  cases hlimit : check with
  | error other =>
    rw [hlimit] at h
    cases h
    exact hcheck failure hlimit
  | ok limit =>
    rw [hlimit] at h
    exact obstacle_of_claim h

theorem obstacle_of_ofCapacity {π : Type} {capacity : Nat}
    (h : (Reservoir.ofCapacity memory capacity : Except Error (Reservoir π)) = .error failure) :
    Obstacle memory failure := by
  rw [Reservoir.ofCapacity_eq] at h
  exact obstacle_of_bind (fun _ => obstacle_of_ofInt capacity) (eq_error_of_map h)

theorem obstacle_of_ofConfig {π : Type} {config : Config}
    (h : (Reservoir.ofConfig memory config : Except Error (Reservoir π)) = .error failure) :
    Obstacle memory failure := by
  rw [Reservoir.ofConfig_eq] at h
  exact obstacle_of_bind (fun _ => obstacle_of_limit) (eq_error_of_map h)

/-- Each failure in the making is one of the obstacles, and there is no obstacle that cannot be
met with. -/
theorem unmade_iff_obstacle : Unmade memory failure ↔ Obstacle memory failure := by
  constructor
  · intro h
    cases h with
    | @withLimit α cmp limit h =>
      rw [MinMaxHeap.withLimit_eq] at h
      exact obstacle_of_claim (eq_error_of_map h)
    | @bounded α cmp count h =>
      rw [MinMaxHeap.bounded_eq] at h
      exact obstacle_of_bind (fun _ => obstacle_of_ofInt count) (eq_error_of_map h)
    | @heapBuilt α cmp plan h =>
      rw [MinMaxHeap.Blueprint.build_eq] at h
      exact obstacle_of_bind (fun _ => obstacle_of_ofInt plan.count) (eq_error_of_map h)
    | ofCapacity h => exact obstacle_of_ofCapacity h
    | ofConfig h => exact obstacle_of_ofConfig h
    | reservoirBuilt h =>
      rw [Reservoir.Blueprint.build_eq] at h
      exact obstacle_of_ofConfig (eq_error_of_map h)
    | shared h => exact obstacle_of_ofCapacity (eq_error_of_map h)
  · intro h
    cases h with
    | @bound bound hbound =>
      -- A negative bound can come from a configuration alone, and 0 fails as a limit alone.
      cases bound with
      | negSucc n =>
        have husual : ¬Text.isBlank Config.usualName = true := by decide
        have hconfig : (Reservoir.ofConfig memory ⟨.negSucc n, Config.usualName⟩ :
            Except Error (Reservoir Unit)) = .error (.invalidBound (.negSucc n)) := by
          rw [Reservoir.ofConfig_eq, Config.limit_eq_ite, if_neg husual]
          rfl
        exact .ofConfig hconfig
      | ofNat count =>
        have hcount : count < 2 := Int.ofNat_lt.mp hbound
        have hlimited : MinMaxHeap.withLimit (compare : Comparator Nat) memory (.atMost count) =
            .error (.invalidBound count) := by
          rw [MinMaxHeap.withLimit, MinMaxHeap.initialSlots, if_pos hcount]
          rfl
        exact .withLimit hlimited
    | name =>
      have hconfig : (Reservoir.ofConfig memory ⟨0, ""⟩ : Except Error (Reservoir Unit)) =
          .error .blankName := rfl
      exact .ofConfig hconfig
    | @storage slots hslots hreserves =>
      have hlimit : Limit.ofInt slots = .ok (.atMost slots) := Limit.ofNat_of_two_le hslots
      have hinitial : MinMaxHeap.initialSlots (.atMost slots) = .ok slots :=
        Limit.initialSlots_of_ofInt hlimit
      have hlimited : MinMaxHeap.withLimit (compare : Comparator Nat) memory (.atMost slots) =
          .error (.allocationFailed slots) := by
        rw [MinMaxHeap.withLimit_eq, Ground.claim_of_initialSlots hinitial,
          if_neg (Bool.eq_false_iff.mp hreserves)]
        rfl
      exact .withLimit hlimited

end Obstacles

/-! ## Failures in use -/

/-- Something that had been made could not take in what it was offered, and this is the failure.
Neither the heap nor the reservoir need have been made in one of the ways there are. -/
inductive Unstored (memory : Memory) (failure : Error) : Prop
  | insert {α : Type} {cmp : Comparator α} {heap : MinMaxHeap α cmp} {value : α}
      (h : (heap.insert memory value).answer = .error failure)
  | add {π : Type} {reservoir : Reservoir π} {event : Event π}
      (h : (reservoir.add memory event).answer = .error failure)
  | merge {π : Type} {reservoir other : Reservoir π}
      (h : (reservoir.merge memory other).answer = .error failure)

/-- Storage for some number of slots was refused, and this is the failure. -/
def Refused (memory : Memory) (failure : Error) : Prop :=
  ∃ slots, memory.reserves slots = false ∧ failure = .allocationFailed slots

section Refusals

variable {memory : Memory} {failure : Error}

section Heaps

variable {α : Type} {cmp : Comparator α} {heap : MinMaxHeap α cmp} {value : α}

theorem refused_of_grow (h : heap.grow memory = .error failure) : Refused memory failure := by
  rw [MinMaxHeap.grow] at h
  split at h
  · cases h
  · rename_i hreserves
    cases h
    exact ⟨_, Bool.eq_false_iff.mpr hreserves, rfl⟩

theorem refused_of_store {outcome : Insertion}
    (h : (heap.store memory outcome value).answer = .error failure) : Refused memory failure := by
  rw [MinMaxHeap.store, MinMaxHeap.makeRoom] at h
  split at h
  · cases h
  · rename_i other hroom
    cases h
    split at hroom
    · exact refused_of_grow hroom
    · cases hroom

theorem refused_of_insert (h : (heap.insert memory value).answer = .error failure) :
    Refused memory failure := by
  rw [MinMaxHeap.insert] at h
  split at h
  · split at h
    · split at h
      · exact refused_of_store h
      · exact refused_of_store h
    · cases h
  · exact refused_of_store h

end Heaps

section Reservoirs

variable {π : Type} {reservoir : Reservoir π}

theorem refused_of_offer {event : Event π}
    (h : (reservoir.offer memory event).answer = .error failure) : Refused memory failure := by
  rw [Reservoir.answer_offer] at h
  exact refused_of_insert h

theorem refused_of_absorb {events : List (Event π)}
    (h : (reservoir.absorb memory events).answer = .error failure) : Refused memory failure := by
  induction events generalizing reservoir with
  | nil => cases h
  | cons event later ih =>
    rw [Reservoir.absorb] at h
    split at h
    · exact ih h
    · rename_i other hoffer
      cases h
      exact refused_of_offer hoffer

end Reservoirs

/-- The one failure in use is a lack of storage. -/
theorem Unstored.refused (h : Unstored memory failure) : Refused memory failure := by
  cases h with
  | insert h => exact refused_of_insert h
  | add h => exact refused_of_offer (eq_error_of_map h)
  | merge h => exact refused_of_absorb h

end Refusals

/-! ## What the classification says -/

/-- The classification misses one kind of obstacle. -/
theorem Obstacle.isConstruction_iff {memory : Memory} {failure : Error}
    (h : Obstacle memory failure) : failure.isConstruction = true ↔ ¬Refused memory failure := by
  cases h with
  | bound hbound => exact iff_of_true rfl nofun
  | name => exact iff_of_true rfl nofun
  | @storage slots hslots hreserves =>
    exact iff_of_false nofun fun hnot => hnot ⟨slots, hreserves, rfl⟩

/-- The failures in the making are exactly the obstacles, and those in use are refusals of storage.
The classification puts the latter where they belong, and of the former all but the refusals of
storage. -/
theorem isConstruction_of_failure (memory : Memory) (failure : Error) :
    (Unmade memory failure ↔ Obstacle memory failure) ∧
    (Unmade memory failure → (failure.isConstruction = true ↔ ¬Refused memory failure)) ∧
    (Unstored memory failure → Refused memory failure ∧ failure.isConstruction = false) := by
  refine ⟨unmade_iff_obstacle, fun h => (unmade_iff_obstacle.mp h).isConstruction_iff, ?_⟩
  intro h
  obtain ⟨slots, hreserves, rfl⟩ := h.refused
  exact ⟨⟨slots, hreserves, rfl⟩, rfl⟩

/-- A limit beyond the ceiling is refused its slots, and the failure is not classified as one in
the making. -/
theorem not_isConstruction_of_unmade :
    ¬∀ (memory : Memory) (failure : Error), Unmade memory failure →
      failure.isConstruction = true := by
  intro h
  have hrefused : Obstacle .ample (.allocationFailed (Memory.ceiling + 1)) :=
    .storage (by decide) (by decide)
  have hconstruction := h .ample _ (unmade_iff_obstacle.mpr hrefused)
  cases hconstruction

end Error

end PrioritySampling
