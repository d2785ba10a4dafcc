import Mathlib.Algebra.BigOperators.Group.Finset.Basic
import PrioritySampling.Pool.Command
import PrioritySampling.Proofs.Ledger
import PrioritySampling.Proofs.Listing
/-!
# The books of a pool

The books keep a ledger for every reservoir of a pool.  A merge joins two of them, and whenever a
reservoir begins a cycle or leaves the pool, its ledger is closed.  Each event is entered once,
when it is added, and moves with the reservoir that it was added to.  So the ledgers together
never show more events than have been added, however many reservoirs there are and in whatever
way they have been merged, and this is what keeps the counts of each within 64 bits.

Reading a reservoir or copying its events is no command: it leaves the pool as it is.
-/

namespace PrioritySampling

namespace Pool

variable {π : Type}

/-- A ledger for every name. -/
abbrev Books := String → Ledger

namespace Books

/-- The ledgers are open and empty. -/
def blank : Books :=
  fun _ => .zero

/-- Replaces one ledger. -/
def enter (name : String) (ledger : Ledger) (books : Books) : Books :=
  Function.update books name ledger

@[simp]
theorem enter_self (name : String) (ledger : Ledger) (books : Books) :
    books.enter name ledger name = ledger := by
  rw [enter, Function.update_self]

theorem enter_of_ne {name other : String} (h : other ≠ name) (ledger : Ledger) (books : Books) :
    books.enter name ledger other = books other := by
  rw [enter, Function.update_of_ne h]

theorem enter_same (name : String) (books : Books) : books.enter name (books name) = books :=
  Function.update_eq_self name books

/-- The books after a command, given the pool and the books before it. -/
def after (pool : Pool π) (books : Books) : Command π → Books
  | .placeLocal name _ | .placeShared name _ => books.enter name .zero
  | .add name event =>
    match pool.members.find? name with
    | some member =>
      books.enter name ((books name).add member.memory member.reservoir event)
    | none => books
  | .merge name donor =>
    match (pool.members.erase donor).find? name, pool.members.find? donor with
    | some member, some other =>
      (books.enter donor .zero).enter name
        ((books name).merge member.memory member.reservoir other.reservoir (books donor))
    | _, _ => books
  | .pop name side =>
    match (pool.members.find? name).bind fun member => member.reservoir.pop side with
    | some _ => books.enter name (books name).take
    | none => books
  | .harvest name | .drop name =>
    match pool.members.find? name with
    | some _ => books.enter name .zero
    | none => books
  | _ => books

/-- The books after a history. -/
def run (pool : Pool π) (books : Books) : List (Command π) → Books
  | [] => books
  | command :: later => run (pool.apply command).state (books.after pool command) later

/-- The number of events that the ledgers of some names show. -/
def total (books : Books) (names : Finset String) : Nat :=
  ∑ name ∈ names, (books name).seen

theorem total_enter_of_mem {name : String} {names : Finset String} (h : name ∈ names)
    (ledger : Ledger) (books : Books) :
    (books.enter name ledger).total names + (books name).seen =
      books.total names + ledger.seen := by
  have hrest : ∑ other ∈ names.erase name, (books.enter name ledger other).seen =
      ∑ other ∈ names.erase name, (books other).seen :=
    Finset.sum_congr rfl fun other hother => by
      rw [enter_of_ne (Finset.ne_of_mem_erase hother)]
  rw [total, total, ← Finset.add_sum_erase _ _ h, ← Finset.add_sum_erase _ _ h, hrest, enter_self]
  omega

theorem total_enter_of_notMem {name : String} {names : Finset String} (h : name ∉ names)
    (ledger : Ledger) (books : Books) : (books.enter name ledger).total names = books.total names :=
  Finset.sum_congr rfl fun other hother => by
    rw [enter_of_ne (ne_of_mem_of_not_mem hother h)]

/-- If the ledgers together showed no more than so many events, a new entry changes that number
by no more than the entry itself. -/
theorem total_enter_le {books : Books} {added added' : Nat} (h : ∀ names, books.total names ≤ added)
    {name : String} {ledger : Ledger} (hseen : ledger.seen + added ≤ (books name).seen + added')
    (names : Finset String) : (books.enter name ledger).total names ≤ added' := by
  have htotal := h (insert name names)
  by_cases hmem : name ∈ names
  · have henter := total_enter_of_mem hmem ledger books
    rw [Finset.insert_eq_of_mem hmem] at htotal
    omega
  · have henter := total_enter_of_notMem hmem ledger books
    have hsplit : (books name).seen + books.total names ≤ added := by
      rwa [total, Finset.sum_insert hmem] at htotal
    omega

end Books

/-! ## The invariant -/

/-- Every reservoir agrees with its ledger, and together the ledgers show no more events than
have been added. -/
structure Kept (members : Directory (Member π)) (books : Books) (added : Nat) : Prop where
  accounts : ∀ name member, members.find? name = some member →
    member.reservoir.Accounts (books name) 0
  total_le : ∀ names : Finset String, books.total names ≤ added

theorem kept_empty : Kept (empty : Pool π).members .blank 0 :=
  ⟨fun _ _ h => absurd h nofun, fun _ => Nat.le_of_eq (Finset.sum_const_zero)⟩

section Kept

variable {members : Directory (Member π)} {books : Books} {added added' : Nat} {name : String}
  {member : Member π} {ledger : Ledger}

theorem Kept.seen_le (h : Kept members books added) (name : String) :
    (books name).seen ≤ added := by
  have htotal := h.total_le {name}
  rwa [Books.total, Finset.sum_singleton] at htotal

/-- Two ledgers together show no more events than have been added. -/
theorem Kept.seen_add_le (h : Kept members books added) {other : String} (hne : name ≠ other) :
    (books name).seen + (books other).seen ≤ added := by
  have htotal := h.total_le {name, other}
  rwa [Books.total, Finset.sum_pair hne] at htotal

theorem Kept.mono (h : Kept members books added) (hle : added ≤ added') :
    Kept members books added' :=
  ⟨h.accounts, fun names => Nat.le_trans (h.total_le names) hle⟩

/-- A member changes, and so does its ledger. -/
theorem Kept.put (h : Kept members books added) (haccounts : member.reservoir.Accounts ledger 0)
    (hseen : ledger.seen + added ≤ (books name).seen + added') :
    Kept (members.put name member) (books.enter name ledger) added' := by
  refine ⟨Directory.forall_find?_put ?_ fun other held hne hheld => ?_,
    Books.total_enter_le h.total_le hseen⟩
  · rwa [Books.enter_self]
  · rw [Books.enter_of_ne hne]
    exact h.accounts other held hheld

/-- A member changes in a way that its ledger does not show. -/
theorem Kept.change (h : Kept members books added)
    (haccounts : member.reservoir.Accounts (books name) 0) :
    Kept (members.put name member) books added := by
  have hput : Kept (members.put name member) (books.enter name (books name)) added :=
    h.put haccounts (Nat.le_refl _)
  rwa [Books.enter_same] at hput

/-- A member leaves, and the events in its ledger are no longer shown. -/
theorem Kept.erase (h : Kept members books added) (name : String) :
    Kept (members.erase name) (books.enter name .zero) (added - (books name).seen) := by
  refine ⟨?_, Books.total_enter_le h.total_le ?_⟩
  · refine Directory.forall_find?_erase fun other held hne hheld => ?_
    rw [Books.enter_of_ne hne]
    exact h.accounts other held hheld
  · have hle := h.seen_le name
    show 0 + added ≤ _
    omega

end Kept

/-! ## Commands -/

/-- The reservoirs that a command brings into the pool are new. -/
def Command.PlacesNew : Command π → Prop
  | .placeLocal _ reservoir | .placeShared _ reservoir => reservoir.Made
  | _ => True

/-- The command offers an event. -/
def Command.isAdd : Command π → Bool
  | .add _ _ => true
  | _ => false

@[simp]
theorem members_recordFor (member : Member π) (change : Totals → Totals) (pool : Pool π) :
    (pool.recordFor member change).members = pool.members := by
  rw [recordFor]
  split
  · rfl
  · rfl

@[simp]
theorem members_recordAt (handle : String) (change : Totals → Totals) (pool : Pool π) :
    (pool.recordAt handle change).state.members = pool.members := by
  rw [recordAt]
  split
  · rfl
  · rfl

@[simp]
theorem members_putHandle (handle : String) (collector : Option Nat) (pool : Pool π) :
    (pool.putHandle handle collector).state.members = pool.members := by
  cases collector with
  | none => rfl
  | some collector => rfl

theorem members_of_collectorFor {handle : Option String} {pool pool' : Pool π} {collector : Nat}
    (h : pool.collectorFor handle = some (collector, pool')) : pool'.members = pool.members := by
  cases handle with
  | none =>
    cases h
    rfl
  | some handle =>
    rw [collectorFor, Option.map_eq_some_iff] at h
    obtain ⟨found, -, ⟨⟩⟩ := h
    rfl

section Apply

variable {pool : Pool π} {books : Books} {added : Nat}

theorem Kept.place (h : Kept pool.members books added) (name : String) {member : Member π}
    (hnew : member.reservoir.Made) :
    Kept (pool.place name member).state.members (books.enter name .zero) added :=
  h.put hnew.accounts (Nat.add_le_add_right (Nat.zero_le _) added)

theorem Kept.add (h : Kept pool.members books added) (name : String) (event : Event π) :
    Kept (pool.add name event).state.members (books.after pool (.add name event)) (added + 1) := by
  rw [Pool.add, Books.after]
  cases hmember : pool.members.find? name with
  | none => exact h.mono (Nat.le_succ added)
  | some member =>
    simp only [members_recordFor]
    refine h.put ((h.accounts name member hmember).add member.memory event) ?_
    rw [Ledger.seen_add]
    omega

theorem Kept.merge (h : Kept pool.members books added) (name donor : String) :
    Kept (pool.merge name donor).state.members (books.after pool (.merge name donor)) added := by
  rw [Pool.merge, Books.after]
  cases hmember : (pool.members.erase donor).find? name with
  | none => exact h
  | some member =>
    cases hother : pool.members.find? donor with
    | none => exact h
    | some other =>
      have hne : name ≠ donor := by
        rintro rfl
        rw [Directory.find?_erase_self] at hmember
        cases hmember
      rw [Directory.find?_erase_of_ne hne] at hmember
      have hmerge := (h.accounts name member hmember).merge (h.accounts donor other hother)
        member.memory
      have hle := h.seen_le donor
      simp only [members_recordFor]
      refine (h.erase donor).put hmerge ?_
      rw [Ledger.seen_merge, Books.enter_of_ne hne]
      omega

theorem Kept.pop (h : Kept pool.members books added) (name : String) (side : Side) :
    Kept (pool.pop name side).state.members (books.after pool (.pop name side)) added := by
  rw [Pool.pop, Books.after]
  cases hmember : pool.members.find? name with
  | none => exact h
  | some member =>
    simp only [Option.bind_some]
    cases hpop : member.reservoir.pop side with
    | none => exact h
    | some pair =>
      exact h.put ((h.accounts name member hmember).pop hpop) (Nat.le_refl _)

theorem Kept.harvest (h : Kept pool.members books added) (name : String) :
    Kept (pool.harvest name).state.members (books.after pool (.harvest name)) added := by
  rw [Pool.harvest, Books.after]
  cases hmember : pool.members.find? name with
  | none => exact h
  | some member =>
    show Kept (Pool.recordFor member _ (pool.update name
      { member with reservoir := member.reservoir.harvest.2 })).members _ added
    rw [members_recordFor]
    exact h.put (h.accounts name member hmember).harvest
      (Nat.add_le_add_right (Nat.zero_le _) added)

theorem Kept.adjust (h : Kept pool.members books added) (name : String)
    {change : Member π → Member π}
    (hchange : ∀ member : Member π, member.reservoir.Accounts (books name) 0 →
      (change member).reservoir.Accounts (books name) 0) :
    Kept (pool.adjust name change).state.members books added := by
  rw [Pool.adjust]
  cases hmember : pool.members.find? name with
  | none => exact h
  | some member => exact h.change (hchange member (h.accounts name member hmember))

theorem Kept.drop (h : Kept pool.members books added) (name : String) :
    Kept (pool.drop name).state.members (books.after pool (.drop name)) added := by
  rw [Pool.drop, Books.after]
  cases hmember : pool.members.find? name with
  | none => exact h
  | some member => exact (h.erase name).mono (Nat.sub_le _ _)

theorem Kept.share (h : Kept pool.members books added) (name : String) (handle : Option String) :
    Kept (pool.share name handle).state.members books added := by
  rw [Pool.share]
  cases hmember : pool.members.find? name with
  | none => exact h
  | some member =>
    cases hcollector : pool.collectorFor handle with
    | none => exact h
    | some pair =>
      obtain ⟨collector, pool'⟩ := pair
      have hmembers := members_of_collectorFor hcollector
      show Kept (pool'.members.put name _) books added
      rw [hmembers]
      exact h.change (h.accounts name member hmember)

/-- Every command keeps the books. -/
theorem Kept.apply (h : Kept pool.members books added) {command : Command π}
    (hnew : command.PlacesNew) :
    Kept (pool.apply command).state.members (books.after pool command)
      (added + if command.isAdd then 1 else 0) := by
  cases command with
  | placeLocal name reservoir => exact h.place name hnew
  | placeShared name reservoir => exact h.place name hnew
  | add name event => exact h.add name event
  | merge name donor => exact h.merge name donor
  | pop name side => exact h.pop name side
  | harvest name => exact h.harvest name
  | setHook name hook => exact h.adjust name fun member haccounts => haccounts.setHook hook
  | setMemory name memory => exact h.adjust name fun member haccounts => haccounts
  | share name handle => exact h.share name handle
  | unshare name => exact h.adjust name fun member haccounts => haccounts
  | drop name => exact h.drop name
  | openCollector handle => exact h
  | copyHandle handle copy =>
    rw [Pool.apply, members_putHandle]
    exact h
  | handleOf handle name =>
    rw [Pool.apply, members_putHandle]
    exact h
  | recordHarvest handle stats =>
    rw [Pool.apply, members_recordAt]
    exact h
  | recordFailure handle =>
    rw [Pool.apply, members_recordAt]
    exact h
  | reset handle =>
    rw [Pool.apply, members_recordAt]
    exact h

theorem Kept.run (h : Kept pool.members books added) {history : List (Command π)}
    (hnew : ∀ command ∈ history, command.PlacesNew) :
    Kept (pool.run history).state.members (books.run pool history)
      (added + history.countP Command.isAdd) := by
  induction history generalizing pool books added with
  | nil => exact h
  | cons command later ih =>
    have hfirst := h.apply (hnew command List.mem_cons_self)
    have hlater := ih hfirst fun other hother => hnew other (List.mem_cons_of_mem command hother)
    rw [List.countP_cons, Nat.add_comm (later.countP _), ← Nat.add_assoc]
    exact hlater

end Apply

/-! ## Every history -/

/-- In a pool of new reservoirs, whatever is done to it, what was seen in a cycle is what is saved,
was rejected, was evicted, was popped or was lost.  As long as fewer events have been added than
64 bits can count, no count has wrapped around, and neither would one that adds up two of the
reservoirs. -/
theorem accounting_of_run {history : List (Command π)}
    (hnew : ∀ command ∈ history, command.PlacesNew) {name : String} {reservoir : Reservoir π}
    (h : (empty.run history).state.reservoir? name = some reservoir) :
    let ledger := Books.blank.run empty history name
    reservoir.seen = reservoir.saved + reservoir.rejected + reservoir.evicted +
      .ofNat ledger.popped + .ofNat ledger.lost ∧
    (reservoir.capacity ≠ 0 → reservoir.saved.toNat ≤ reservoir.capacity) ∧
    reservoir.stats.isFull = reservoir.heap.isFull ∧
    (history.countP Command.isAdd < UInt64.size →
      reservoir.Exact ledger ∧
      reservoir.saved ≤ reservoir.seen ∧
      reservoir.dropped = reservoir.seen - reservoir.saved ∧
      reservoir.stats.saved.toNat + reservoir.stats.dropped.toNat = reservoir.stats.seen.toNat ∧
      reservoir.rejected.toNat + reservoir.evicted.toNat ≤ reservoir.seen.toNat ∧
      reservoir.seen.toNat ≤ history.countP Command.isAdd ∧
      ∀ name' reservoir', name' ≠ name →
        (empty.run history).state.reservoir? name' = some reservoir' →
        reservoir.seen.toNat + reservoir'.seen.toNat ≤ history.countP Command.isAdd) := by
  intro ledger
  have hkept : Kept (empty.run history).state.members (Books.blank.run empty history)
      (history.countP Command.isAdd) := by
    have hrun := kept_empty.run hnew
    rwa [Nat.zero_add] at hrun
  have haccounts : ∀ {name reservoir},
      (empty.run history).state.reservoir? name = some reservoir →
      reservoir.Accounts (Books.blank.run empty history name) 0 := by
    intro name reservoir h
    rw [reservoir?, Option.map_eq_some_iff] at h
    obtain ⟨member, hmember, rfl⟩ := h
    exact hkept.accounts name member hmember
  refine ⟨(haccounts h).seen_eq_sum, (haccounts h).saved_le_capacity, (haccounts h).isFull_stats,
    ?_⟩
  intro hlt
  have hexact : ∀ {name reservoir},
      (empty.run history).state.reservoir? name = some reservoir →
      reservoir.Exact (Books.blank.run empty history name) := by
    intro name reservoir h
    exact (haccounts h).exact (Nat.lt_of_le_of_lt (hkept.seen_le name) hlt)
  refine ⟨hexact h, (hexact h).saved_le, (hexact h).dropped_eq, (hexact h).saved_add_dropped,
    (hexact h).rejected_add_evicted_le, ?_, ?_⟩
  · rw [(hexact h).seen_eq]
    exact hkept.seen_le name
  · intro name' reservoir' hne h'
    have htotal := hkept.total_le {name, name'}
    rw [Books.total, Finset.sum_pair hne.symm] at htotal
    rw [(hexact h).seen_eq, (hexact h').seen_eq]
    exact htotal

theorem accounting_of_run_merged :
    ∃ (history : List (Command Unit)) (reservoir : Reservoir Unit),
      (empty.run history).state.reservoir? "target" = some reservoir ∧
      (reservoir.seen, reservoir.evicted) = (4, 1) ∧
      reservoir.Exact ⟨4, 0, 1, 1, 0⟩ := by
  let limited : Reservoir Unit := .fresh Config.usualName ⟨#[], 2, .atMost 2, none⟩
  have hlimited : Reservoir.ofCapacity .ample 2 = .ok limited := rfl
  let event (timestamp : UInt64) : Event Unit := ⟨.zero, timestamp, ()⟩
  let history : List (Command Unit) :=
    [.placeLocal "target" limited, .placeShared "donor" .unlimited, .add "target" (event 1),
      .add "donor" (event 2), .add "donor" (event 3), .add "donor" (event 4), .pop "donor" .high,
      .merge "target" "donor"]
  have hnew : ∀ command ∈ history, command.PlacesNew := by
    simp only [history, List.forall_mem_cons, Command.PlacesNew]
    exact ⟨.ofCapacity hlimited, .unlimited, trivial, trivial, trivial, trivial, trivial, trivial,
      nofun⟩
  have hfound : ((empty.run history).state.reservoir? "target").map
      (fun reservoir => (reservoir.seen, reservoir.evicted)) = some (4, 1) := by
    decide +kernel
  obtain ⟨reservoir, hreservoir, hcounts⟩ := Option.map_eq_some_iff.mp hfound
  have hledger : Books.blank.run empty history "target" = ⟨4, 0, 1, 1, 0⟩ := by
    decide +kernel
  have h := (accounting_of_run hnew hreservoir).2.2.2 (by decide)
  rw [hledger] at h
  exact ⟨history, reservoir, hreservoir, hcounts, h.1⟩

end Pool

end PrioritySampling
