import PrioritySampling.MinMaxHeap.Blueprint
import PrioritySampling.Reservoir.Blueprint
/-!
# Ways to make a reservoir

A heap or a reservoir can be asked for by a count, by a limit, by a configuration or by a
blueprint.  All of these ask for the same thing in the end: a limit and the slots for it, which
is the `Ground` that the new heap stands on.  They differ in the check that yields the limit and
in what they put on the ground, and so a failure can come from the check or from the request for
slots and from nowhere else.

A blueprint of a reservoir is drawn up in a series of calls, one of which settles the capacity
and moves the blueprint to its second stage.  `Calls` is such a series.  What is set before that
call has to survive the move, so the blueprint is computed for the whole series first
(`plan_eq`), and only then compared with the configuration that holds the last values given.
-/

namespace PrioritySampling

/-! ## Ground for a heap -/

/-- What a new heap stands on. -/
structure Ground where
  limit : Limit
  /-- The slots that are reserved for it. -/
  slots : Nat

namespace Ground

/-- The ground for a limit, if the limit is valid and its storage can be had. -/
def claim (memory : Memory) (limit : Limit) : Except Error Ground := do
  let slots ← MinMaxHeap.initialSlots limit
  if memory.reserves slots then .ok ⟨limit, slots⟩ else .error (.allocationFailed slots)

/-- An empty heap on the ground. -/
def heap {α : Type} (cmp : Comparator α) (ground : Ground) : MinMaxHeap α cmp :=
  ⟨#[], ground.slots, ground.limit, none⟩

/-- The ground that a heap stands on. -/
def ofHeap {α : Type} {cmp : Comparator α} (heap : MinMaxHeap α cmp) : Ground :=
  ⟨heap.limit, heap.capacity⟩

/-- An empty reservoir on the ground. -/
def reservoir {π : Type} (name : String) (ground : Ground) : Reservoir π :=
  .fresh name (ground.heap Event.rank)

/-- What is put on the ground covers nothing up. -/
theorem map_heap {α : Type} (cmp : Comparator α) (found : Except Error Ground) :
    (found.map (·.heap cmp)).map ofHeap = found := by
  cases found <;> rfl

theorem map_reservoir {π : Type} (name : String) (found : Except Error Ground) :
    (found.map fun ground => (ground.reservoir name : Reservoir π)).map (ofHeap ·.heap) =
      found := by
  cases found <;> rfl

end Ground

namespace Reservoir

variable {π : Type}

/-- The same reservoir with another hook or none. -/
def withHook (hook : Option Hook) (reservoir : Reservoir π) : Reservoir π :=
  { reservoir with heap := { reservoir.heap with hook := hook } }

end Reservoir

section Grounds

variable {α π : Type} (cmp : Comparator α) (memory : Memory)

theorem MinMaxHeap.withLimit_eq (limit : Limit) :
    withLimit cmp memory limit = (Ground.claim memory limit).map (·.heap cmp) := by
  rw [withLimit, Ground.claim]
  cases initialSlots limit with
  | error failure => rfl
  | ok slots =>
    change (if memory.reserves slots then _ else _) =
      Except.map _ (if memory.reserves slots then _ else _)
    cases memory.reserves slots <;> rfl

theorem MinMaxHeap.bounded_eq (count : Nat) :
    bounded cmp memory count =
      ((Limit.ofNat count).bind (Ground.claim memory)).map (·.heap cmp) := by
  rw [bounded]
  cases Limit.ofNat count with
  | error failure => rfl
  | ok limit => exact withLimit_eq cmp memory limit

theorem MinMaxHeap.Blueprint.build_eq (plan : Blueprint) :
    plan.build cmp memory = ((Limit.ofNat plan.count).bind (Ground.claim memory)).map
      fun ground => { ground.heap cmp with hook := plan.hook } := by
  rw [build, bounded_eq]
  cases (Limit.ofNat plan.count).bind (Ground.claim memory) <;> rfl

namespace Reservoir

theorem withLimit_eq (limit : Limit) (name : String) :
    (withLimit memory limit name : Except Error (Reservoir π)) =
      (Ground.claim memory limit).map (·.reservoir name) := by
  rw [withLimit, MinMaxHeap.withLimit_eq]
  cases Ground.claim memory limit <;> rfl

theorem ofCapacity_eq (capacity : Nat) :
    (ofCapacity memory capacity : Except Error (Reservoir π)) =
      ((Limit.ofNat capacity).bind (Ground.claim memory)).map (·.reservoir Config.usualName) := by
  rw [ofCapacity]
  cases Limit.ofNat capacity with
  | error failure => rfl
  | ok limit => exact withLimit_eq memory limit Config.usualName

theorem ofConfig_eq (config : Config) :
    (ofConfig memory config : Except Error (Reservoir π)) =
      (config.limit.bind (Ground.claim memory)).map (·.reservoir config.name) := by
  rw [ofConfig]
  cases config.limit with
  | error failure => rfl
  | ok limit => exact withLimit_eq memory limit config.name

/-- A blueprint leads where its configuration leads, but for the hook. -/
theorem Blueprint.build_eq (plan : Blueprint .sized) :
    (plan.build memory : Except Error (Reservoir π)) =
      (ofConfig memory plan.config).map (withHook plan.hook) := by
  rw [build, ofConfig, Config.limit]
  cases Config.checkName plan.config.name with
  | error failure => rfl
  | ok shown =>
    cases Limit.ofInt plan.config.capacity with
    | error failure => rfl
    | ok limit =>
      have hlimit := withLimit_eq (π := π) memory limit plan.config.name
      change (withLimit memory limit plan.config.name >>= _) =
        (withLimit memory limit plan.config.name).map _
      rw [hlimit]
      cases Ground.claim memory limit with
      | error failure => rfl
      | ok ground => cases hhook : plan.hook <;> rfl

end Reservoir

end Grounds

/-! ## Valid limits -/

namespace Limit

/-- The limit that a signed number describes, unless it is one of those that describe none. -/
def described (capacity : Int) : Limit :=
  if capacity = 0 then .unbounded else .atMost capacity.toNat

/-- The slots that a valid limit is given at first. -/
def slots : Limit → Nat
  | unbounded => MinMaxHeap.chunk
  | atMost count => count

theorem ofInt_eq (capacity : Int) :
    ofInt capacity =
      if capacity < 0 ∨ capacity = 1 then .error (.invalidBound capacity)
      else .ok (described capacity) := by
  match capacity with
  | .ofNat 0 | .ofNat 1 => rfl
  | .ofNat (count + 2) =>
    have hvalid : ¬(Int.ofNat (count + 2) < 0 ∨ Int.ofNat (count + 2) = 1) := by
      simp only [Int.ofNat_eq_natCast]
      omega
    rw [if_neg hvalid]
    rfl
  | .negSucc n => rw [if_pos (.inl (Int.negSucc_lt_zero n)), ofInt]

theorem initialSlots_of_ofInt {capacity : Int} {limit : Limit} (h : ofInt capacity = .ok limit) :
    MinMaxHeap.initialSlots limit = .ok limit.slots := by
  match capacity, h with
  | .ofNat 0, h =>
    cases h
    rfl
  | .ofNat (count + 2), h =>
    cases h
    rw [MinMaxHeap.initialSlots, if_neg (by omega)]
    rfl

end Limit

namespace Config

theorem limit_eq (config : Config) :
    config.limit =
      if Text.isBlank config.name then .error .blankName
      else if config.capacity < 0 ∨ config.capacity = 1 then .error (.invalidBound config.capacity)
      else .ok (.described config.capacity) := by
  rw [limit_eq_ite, Limit.ofInt_eq]

theorem ofInt_of_limit {config : Config} {limit : Limit} (h : config.limit = .ok limit) :
    Limit.ofInt config.capacity = .ok limit := by
  rw [limit_eq_ite] at h
  split at h
  · cases h
  · exact h

end Config

theorem Ground.claim_of_initialSlots {limit : Limit} {slots : Nat}
    (h : MinMaxHeap.initialSlots limit = .ok slots) (memory : Memory) :
    claim memory limit =
      if memory.reserves slots then .ok ⟨limit, slots⟩ else .error (.allocationFailed slots) := by
  rw [claim, h]
  rfl

/-! ## Series of calls -/

namespace Reservoir

namespace Blueprint

variable {stage : Stage}

/-- A call that may come at either stage, as often as one likes. -/
inductive Setting where
  | named (name : String)
  | discardingTo (hook : Hook)

/-- A call that settles the capacity. -/
inductive Sizing where
  | ofCapacity (capacity : Int)
  | unlimited

/-- The name that a call gives. -/
def Setting.name? : Setting → Option String
  | named name => some name
  | discardingTo _ => none

/-- The hook that a call gives. -/
def Setting.hook? : Setting → Option Hook
  | named _ => none
  | discardingTo hook => some hook

/-- The capacity that a call gives. -/
def Sizing.capacity : Sizing → Int
  | ofCapacity capacity => capacity
  | unlimited => 0

/-- The blueprint after one call that leaves the stage as it is. -/
def set (plan : Blueprint stage) : Setting → Blueprint stage
  | .named name => plan.named name
  | .discardingTo hook => plan.discardingTo hook

/-- The blueprint after the call that settles the capacity. -/
def size (plan : Blueprint .started) : Sizing → Blueprint .sized
  | .ofCapacity capacity => plan.ofCapacity capacity
  | .unlimited => plan.unlimited

/-- All calls between the start of a blueprint and its end. -/
structure Calls where
  before : List Setting
  sizing : Sizing
  after : List Setting

namespace Calls

/-- The calls other than the one that settles the capacity. -/
def settings (calls : Calls) : List Setting :=
  calls.before ++ calls.after

/-- The name given last, or the usual one. -/
def name (calls : Calls) : String :=
  (calls.settings.filterMap Setting.name?).getLast?.getD Config.usualName

/-- The hook given last, if any. -/
def hook (calls : Calls) : Option Hook :=
  (calls.settings.filterMap Setting.hook?).getLast?

/-- The configuration with the same capacity and name. -/
def config (calls : Calls) : Config :=
  ⟨calls.sizing.capacity, calls.name⟩

/-- The blueprint that the calls draw up. -/
def plan (calls : Calls) : Blueprint .sized :=
  calls.after.foldl set ((calls.before.foldl set start).size calls.sizing)

end Calls

/-- Of several names and several hooks the last ones count, and the capacity stays. -/
theorem foldl_set (settings : List Setting) (plan : Blueprint stage) :
    settings.foldl set plan =
      ⟨⟨plan.config.capacity,
        (settings.filterMap Setting.name?).getLast?.getD plan.config.name⟩,
        (settings.filterMap Setting.hook?).getLast?.or plan.hook⟩ := by
  induction settings generalizing plan with
  | nil => rfl
  | cons setting later ih =>
    rw [List.foldl_cons, ih]
    cases setting with
    | named name =>
      simp only [List.filterMap_cons, Setting.name?, Setting.hook?, List.getLast?_cons,
        Option.getD_some, set, named]
    | discardingTo hook =>
      simp only [List.filterMap_cons, Setting.name?, Setting.hook?, List.getLast?_cons,
        Option.or_some, Option.some_or, set, discardingTo]

theorem size_eq (plan : Blueprint .started) (sizing : Sizing) :
    plan.size sizing = ⟨⟨sizing.capacity, plan.config.name⟩, plan.hook⟩ := by
  cases sizing <;> rfl

/-- A series of calls draws up the configuration with its last name, and leaves its last hook. -/
theorem Calls.plan_eq (calls : Calls) : calls.plan = ⟨calls.config, calls.hook⟩ := by
  rw [plan, foldl_set, foldl_set, size_eq, config, name, hook, settings]
  simp only [List.filterMap_append, List.getLast?_append, Option.getD_or, start, Option.or_none]

/-! ## Agreement -/

/-- What is made of a series of calls is what is made of the configuration with the values given
last, and apart from the name it is what is made of a count. -/
structure Calls.Agreement (π : Type) (memory : Memory) (calls : Calls) : Prop where
  /-- The two reservoirs differ in the hook alone, which is the one given last. -/
  build_eq : (calls.plan.build memory : Except Error (Reservoir π)) =
    (ofConfig memory calls.config).map (withHook calls.hook)
  /-- Of two mistakes the blank name is reported. -/
  limit_eq : calls.config.limit =
    if Text.isBlank calls.name then .error .blankName
    else if calls.sizing.capacity < 0 ∨ calls.sizing.capacity = 1 then
      .error (.invalidBound calls.sizing.capacity)
    else .ok (.described calls.sizing.capacity)
  /-- Storage is asked for once the parameters have been checked, and the reservoir is empty. -/
  ofConfig_eq : (ofConfig memory calls.config : Except Error (Reservoir π)) =
    calls.config.limit.bind fun limit =>
      if memory.reserves limit.slots then .ok ⟨calls.name, ⟨#[], limit.slots, limit, none⟩, 0, 0, 0⟩
      else .error (.allocationFailed limit.slots)
  /-- A count asks for the same limit and the same slots, for a reservoir. -/
  ofCapacity_eq : ∀ count : Nat, calls.sizing.capacity = count → Text.isBlank calls.name = false →
    (ofConfig memory calls.config : Except Error (Reservoir π)).map (Ground.ofHeap ·.heap) =
      (Reservoir.ofCapacity memory count : Except Error (Reservoir π)).map (Ground.ofHeap ·.heap)
  /-- So it does for a heap of any values, if the two requests meet the same memory. -/
  bounded_eq : ∀ {α : Type} (cmp : Comparator α) (count : Nat),
    (MinMaxHeap.bounded cmp memory count).map Ground.ofHeap =
      (Reservoir.ofCapacity memory count : Except Error (Reservoir π)).map (Ground.ofHeap ·.heap)

theorem agreement_of_calls (π : Type) (memory : Memory) (calls : Calls) :
    calls.Agreement π memory where
  build_eq := by rw [calls.plan_eq, build_eq]
  limit_eq := calls.config.limit_eq
  ofConfig_eq := by
    rw [ofConfig_eq]
    cases hlimit : calls.config.limit with
    | error failure => rfl
    | ok limit =>
      have hslots := Limit.initialSlots_of_ofInt (Config.ofInt_of_limit hlimit)
      change (Ground.claim memory limit).map _ = if memory.reserves limit.slots then _ else _
      rw [Ground.claim_of_initialSlots hslots]
      cases memory.reserves limit.slots <;> rfl
  ofCapacity_eq := by
    intro count hcapacity hname
    change Text.isBlank calls.config.name = false at hname
    have hlimit : calls.config.limit = Limit.ofNat count := by
      rw [Config.limit_eq_ite, if_neg (Bool.eq_false_iff.mp hname)]
      exact congrArg Limit.ofInt hcapacity
    rw [ofConfig_eq, ofCapacity_eq, hlimit, Ground.map_reservoir, Ground.map_reservoir]
  bounded_eq := by
    intro α cmp count
    rw [MinMaxHeap.bounded_eq, ofCapacity_eq, Ground.map_heap, Ground.map_reservoir]

example :
    (⟨[.named "first", .discardingTo "a"], .ofCapacity 5, [.discardingTo "b", .named "last"]⟩ :
      Calls).plan = ⟨⟨5, "last"⟩, some "b"⟩ :=
  rfl

end Blueprint

end Reservoir

end PrioritySampling
