import PrioritySampling.Proofs.Steps
/-!
# Totals over many cycles

Shared reservoirs record into collectors.  A reservoir counts the cycle that is under way, and a
harvest moves these counts to the totals of its collector, so that what has been seen is divided
between the totals and the cycles under way.  Calls come in any interleaving, on any number of
reservoirs that record into the same collector.

The log of a collector has an entry for each call that concerns it.  What the totals and the cycles
under way tell together is what the log tells, as long as nobody takes a recording reservoir away
from the collector or changes the totals by hand.
-/

namespace PrioritySampling

/-- The events seen in the cycle of a member that records into a collector. -/
def Member.underway {π : Type} (collector : Nat) (member : Member π) : Nat :=
  if member.collector = some collector then member.reservoir.seen.toNat else 0

namespace Pool

variable {π : Type}

/-! ## The log of a collector -/

/-- What happens to the reservoirs that record into a collector. -/
inductive Entry (π : Type) where
  /-- A reservoir begins to record. -/
  | joined (reservoir : Reservoir π)
  /-- An event was offered. -/
  | added (outcome : Except Error Bool)
  /-- Another reservoir was merged into one that records. -/
  | merged (donor : Reservoir π) (outcome : Except Error Unit)
  /-- A cycle ended. -/
  | harvested (harvest : Harvest π)

/-- The outcome of a call is a lack of storage. -/
def outOfStorage {ρ : Type} : Except Error ρ → Bool
  | .error failure => failure.isAllocation
  | .ok _ => false

namespace Entry

/-- The events that have come to the collector's reservoirs. -/
def offered : Entry π → Nat
  | joined reservoir => reservoir.seen.toNat
  | added _ => 1
  | merged donor _ => donor.seen.toNat
  | harvested _ => 0

/-- The events that a harvest handed over. -/
def yield : Entry π → Nat
  | harvested harvest => harvest.events.length
  | _ => 0

/-- A cycle ended. -/
def isHarvest : Entry π → Bool
  | harvested _ => true
  | _ => false

/-- The call failed for lack of storage. -/
def isFailure : Entry π → Bool
  | added outcome => outOfStorage outcome
  | merged _ outcome => outOfStorage outcome
  | _ => false

end Entry

/-- The reservoir of a name records into a collector. -/
def records (collector : Nat) (name : String) (pool : Pool π) : Bool :=
  match pool.members.find? name with
  | some member => member.collector = some collector
  | none => false

/-- What a command, given its effect, means to a collector. -/
def logged? (collector : Nat) (pool : Pool π) (command : Command π) (effect : Effect π) :
    Option (Entry π) :=
  match command, effect.answer with
  | .placeShared name reservoir, .done =>
    if effect.state.records collector name then some (.joined reservoir) else none
  | .share name _, .done =>
    if effect.state.records collector name then (pool.reservoir? name).map .joined else none
  | .add name _, .added outcome =>
    if pool.records collector name then some (.added outcome) else none
  | .merge name donor, .merged outcome =>
    if pool.records collector name then (pool.reservoir? donor).map (.merged · outcome) else none
  | .harvest name, .harvested harvest =>
    if pool.records collector name then some (.harvested harvest) else none
  | _, _ => none

/-- The log of a collector over a history. -/
def log (collector : Nat) (pool : Pool π) : List (Command π) → List (Entry π)
  | [] => []
  | command :: later =>
    let step := pool.apply command
    (pool.logged? collector command step).toList ++ log collector step.state later

/-- A command takes no reservoir away from a collector and leaves its totals to the reservoirs. -/
def Command.Spares (collector : Nat) (pool : Pool π) : Command π → Prop
  | .placeLocal name _ | .placeShared name _ | .share name _ | .unshare name | .drop name =>
    pool.records collector name = false
  | .merge _ donor => pool.records collector donor = false
  | .recordHarvest handle _ | .recordFailure handle | .reset handle =>
    pool.handles.find? handle ≠ some collector
  | _ => True

instance (collector : Nat) (pool : Pool π) (command : Command π) :
    Decidable (command.Spares collector pool) :=
  match command with
  | .placeLocal name _ | .placeShared name _ | .share name _ | .unshare name | .drop name =>
    inferInstanceAs (Decidable (pool.records collector name = false))
  | .merge _ donor => inferInstanceAs (Decidable (pool.records collector donor = false))
  | .recordHarvest handle _ | .recordFailure handle | .reset handle =>
    inferInstanceAs (Decidable (pool.handles.find? handle ≠ some collector))
  | .add _ _ | .pop _ _ | .harvest _ | .setHook _ _ | .setMemory _ _ | .openCollector _
  | .copyHandle _ _ | .handleOf _ _ => .isTrue trivial

/-! ## Numbers of collectors -/

/-- The totals of a collector, which are zero before it is there. -/
def totalsOf (collector : Nat) (pool : Pool π) : Totals :=
  pool.collectors[collector]?.getD .zero

/-- Reservoirs record into collectors that are there, and so do handles name them. -/
structure Numbered (pool : Pool π) : Prop where
  member_lt : ∀ name member number, pool.members.find? name = some member →
    member.collector = some number → number < pool.collectors.length
  handle_lt : ∀ handle number, pool.handles.find? handle = some number →
    number < pool.collectors.length

section Numbered

variable {pool : Pool π} {name : String} {member : Member π} {collector : Nat}

theorem Numbered.addCollector (h : pool.Numbered) : pool.addCollector.2.Numbered := by
  have hlength : pool.addCollector.2.collectors.length = pool.collectors.length + 1 :=
    List.length_append
  refine ⟨fun name member number hmember hnumber => ?_, fun handle number hhandle => ?_⟩
  · rw [hlength]
    exact Nat.lt_succ_of_lt (h.member_lt name member number hmember hnumber)
  · rw [hlength]
    exact Nat.lt_succ_of_lt (h.handle_lt handle number hhandle)

theorem Numbered.record (h : pool.Numbered) (collector : Nat) (change : Totals → Totals) :
    (pool.record collector change).Numbered := by
  have hlength : (pool.record collector change).collectors.length = pool.collectors.length :=
    List.length_modify _ _ _
  exact ⟨by rw [hlength]; exact h.member_lt, by rw [hlength]; exact h.handle_lt⟩

theorem Numbered.recordFor (h : pool.Numbered) (member : Member π) (change : Totals → Totals) :
    (pool.recordFor member change).Numbered := by
  rw [Pool.recordFor]
  split
  · exact h.record _ change
  · exact h

theorem Numbered.erase (h : pool.Numbered) (name : String) :
    ({ pool with members := pool.members.erase name } : Pool π).Numbered := by
  refine ⟨fun other held number hheld => ?_, h.handle_lt⟩
  revert other held
  exact Directory.forall_find?_erase fun other held _ hheld => h.member_lt other held number hheld

theorem Numbered.put (h : pool.Numbered) (name : String)
    (hmember : ∀ number, member.collector = some number → number < pool.collectors.length) :
    (pool.update name member).Numbered := by
  refine ⟨fun other held number hheld => ?_, h.handle_lt⟩
  revert other held
  exact Directory.forall_find?_put (hmember number) fun other held _ hheld =>
    h.member_lt other held number hheld

/-- A member that changes may go on recording. -/
theorem Numbered.update (h : pool.Numbered) (hmember : pool.members.find? name = some member)
    {member' : Member π} (hcollector : member'.collector = member.collector) :
    (pool.update name member').Numbered := by
  refine h.put name fun number hnumber => ?_
  rw [hcollector] at hnumber
  exact h.member_lt name member number hmember hnumber

theorem Numbered.putHandle (h : pool.Numbered) (handle : String)
    (hlt : collector < pool.collectors.length) :
    ({ pool with handles := pool.handles.put handle collector } : Pool π).Numbered := by
  refine ⟨h.member_lt, ?_⟩
  exact Directory.forall_find?_put hlt fun other number _ hnumber => h.handle_lt other number hnumber

theorem addCollector_lt (pool : Pool π) :
    pool.collectors.length < pool.addCollector.2.collectors.length := by
  show _ < (pool.collectors ++ [Totals.zero]).length
  rw [List.length_append]
  exact Nat.lt_succ_self _

/-- The collector for a reservoir is there when it is looked up. -/
theorem Numbered.collectorFor {handle : Option String} {pool' : Pool π} (h : pool.Numbered)
    (hcollector : pool.collectorFor handle = some (collector, pool')) :
    pool'.Numbered ∧ collector < pool'.collectors.length := by
  cases handle with
  | none =>
    cases hcollector
    exact ⟨h.addCollector, pool.addCollector_lt⟩
  | some handle =>
    rw [Pool.collectorFor, Option.map_eq_some_iff] at hcollector
    obtain ⟨found, hfound, ⟨⟩⟩ := hcollector
    exact ⟨h, h.handle_lt handle collector hfound⟩

theorem Step.numbered {command : Command π} {effect : Effect π} (hstep : Step pool command effect)
    (h : pool.Numbered) : effect.state.Numbered := by
  cases hstep with
  | missing | popMissed => exact h
  | placedLocal => exact h.put _ nofun
  | placedShared =>
    refine h.addCollector.put _ fun number hnumber => ?_
    cases hnumber
    exact pool.addCollector_lt
  | added hmember | harvested hmember =>
    refine Numbered.recordFor ?_ _ _
    exact h.update hmember rfl
  | @merged name donor member other step hne hmember hother =>
    refine Numbered.recordFor ?_ _ _
    rw [← Directory.find?_erase_of_ne hne] at hmember
    exact (h.erase donor).update hmember rfl
  | popped hmember | hooked hmember | supplied hmember => exact h.update hmember rfl
  | shared hmember hcollector =>
    obtain ⟨hnumbered, hlt⟩ := h.collectorFor hcollector
    refine hnumbered.put _ fun number hnumber => ?_
    cases hnumber
    exact hlt
  | unshared hmember => exact h.put _ nofun
  | dropped => exact h.erase _
  | opened => exact h.addCollector.putHandle _ pool.addCollector_lt
  | copied hhandle => exact h.putHandle _ (h.handle_lt _ _ hhandle)
  | handed hmember hcollector => exact h.putHandle _ (h.member_lt _ _ _ hmember hcollector)
  | recorded => exact h.record _ _

end Numbered

/-! ## What the totals tell -/

section Totals

variable {pool : Pool π} {member : Member π} {collector : Nat} {change : Totals → Totals}

theorem totalsOf_addCollector (collector : Nat) (pool : Pool π) :
    pool.addCollector.2.totalsOf collector = pool.totalsOf collector := by
  show (pool.collectors ++ [Totals.zero])[collector]?.getD .zero =
    pool.collectors[collector]?.getD .zero
  rcases Nat.lt_or_ge collector pool.collectors.length with hlt | hge
  · rw [List.getElem?_append_left hlt]
  · rw [List.getElem?_append_right hge, List.getElem?_eq_none hge]
    cases collector - pool.collectors.length with
    | zero => rfl
    | succ n => rfl

theorem totalsOf_record_of_ne {other : Nat} (hne : other ≠ collector) :
    (pool.record other change).totalsOf collector = pool.totalsOf collector := by
  rw [totalsOf, record, List.getElem?_modify_ne _ _ hne]
  rfl

theorem totalsOf_record_self (hlt : collector < pool.collectors.length) :
    (pool.record collector change).totalsOf collector = change (pool.totalsOf collector) := by
  simp only [totalsOf, record, List.getElem?_modify_eq, List.getElem?_eq_getElem hlt]
  rfl

/-- A call on a member changes the totals of its own collector alone. -/
theorem Numbered.totalsOf_recordFor {name : String} (h : pool.Numbered)
    (hmember : pool.members.find? name = some member) (collector : Nat)
    (change : Totals → Totals) (members : Directory (Member π)) :
    (({ pool with members := members } : Pool π).recordFor member change).totalsOf collector =
      if member.collector = some collector then change (pool.totalsOf collector)
      else pool.totalsOf collector := by
  rw [Pool.recordFor]
  cases hnumber : member.collector with
  | none => rfl
  | some number =>
    by_cases heq : number = collector
    · subst heq
      rw [if_pos rfl]
      exact totalsOf_record_self (h.member_lt name member number hmember hnumber)
    · rw [if_neg fun h => heq (Option.some.inj h)]
      exact totalsOf_record_of_ne heq

theorem totalsOf_collectorFor {handle : Option String} {pool' : Pool π} {number : Nat}
    (h : pool.collectorFor handle = some (number, pool')) :
    pool'.totalsOf collector = pool.totalsOf collector := by
  cases handle with
  | none =>
    cases h
    exact totalsOf_addCollector collector pool
  | some handle =>
    rw [collectorFor, Option.map_eq_some_iff] at h
    obtain ⟨found, -, ⟨⟩⟩ := h
    rfl

end Totals

section Underway

/-- The events seen in the cycles under way of all reservoirs that record into a collector. -/
def underway (collector : Nat) (members : Directory (Member π)) : Nat :=
  (members.entries.map fun entry => entry.2.underway collector).sum

variable {members : Directory (Member π)} {name : String} {member : Member π} {collector : Nat}

theorem underway_put (h : members.Sorted) (collector : Nat) (name : String) (member : Member π) :
    underway collector (members.put name member) =
      member.underway collector + underway collector (members.erase name) :=
  h.sum_put (fun entry : String × Member π => entry.2.underway collector) name member

theorem underway_of_find? (h : members.Sorted) (hmember : members.find? name = some member)
    (collector : Nat) :
    underway collector members =
      member.underway collector + underway collector (members.erase name) :=
  h.sum_of_find? (fun entry : String × Member π => entry.2.underway collector) hmember

theorem underway_update (h : members.Sorted) (hmember : members.find? name = some member)
    (collector : Nat) (member' : Member π) :
    underway collector (members.put name member') + member.underway collector =
      underway collector members + member'.underway collector := by
  rw [underway_put h, underway_of_find? h hmember collector]
  omega

/-- A member that neither counts more events nor changes its collector has as many under way. -/
theorem underway_update_of_seen_eq (h : members.Sorted) (hmember : members.find? name = some member)
    {member' : Member π} (hcollector : member'.collector = member.collector)
    (hseen : member'.reservoir.seen = member.reservoir.seen) :
    underway collector (members.put name member') = underway collector members := by
  have hunderway := underway_update h hmember collector member'
  rw [Member.underway, Member.underway, hcollector, hseen] at hunderway
  omega

theorem underway_eq_zero (h : member.collector ≠ some collector) :
    member.underway collector = 0 :=
  if_neg h

theorem underway_eq_seen (h : member.collector = some collector) :
    member.underway collector = member.reservoir.seen.toNat :=
  if_pos h

end Underway

/-- Totals and cycles under way tell what the log tells. -/
structure Tallied (collector : Nat) (totals : Totals) (members : Directory (Member π))
    (entries : List (Entry π)) : Prop where
  cycles_eq : totals.cycles = .ofNat (entries.countP Entry.isHarvest)
  failures_eq : totals.allocationFailures = .ofNat (entries.countP Entry.isFailure)
  counts : (entries.map Entry.offered).sum < UInt64.size →
    totals.seen.toNat + underway collector members = (entries.map Entry.offered).sum ∧
    totals.saved.toNat = (entries.map Entry.yield).sum ∧
    totals.saved.toNat + totals.dropped.toNat = totals.seen.toNat

section Tallied

variable {collector : Nat} {totals : Totals} {members members' : Directory (Member π)}
  {entries : List (Entry π)} {entry : Entry π} {name : String} {member member' : Member π}

/-- Other reservoirs do not matter. -/
theorem Tallied.of_underway_eq (h : Tallied collector totals members entries)
    (hunderway : underway collector members' = underway collector members) :
    Tallied collector totals members' entries := by
  refine ⟨h.cycles_eq, h.failures_eq, fun hlt => ?_⟩
  rw [hunderway]
  exact h.counts hlt

/-- A reservoir that begins to record brings the count of its cycle. -/
theorem Tallied.join (h : Tallied collector totals members entries) (reservoir : Reservoir π)
    (hunderway : underway collector members' =
      underway collector members + reservoir.seen.toNat) :
    Tallied collector totals members' (entries ++ [.joined reservoir]) := by
  refine ⟨?_, ?_, fun hlt => ?_⟩
  · rw [List.countP_append, h.cycles_eq]
    rfl
  · rw [List.countP_append, h.failures_eq]
    rfl
  · simp only [List.map_append, List.sum_append, List.map_cons, List.map_nil, List.sum_cons,
      List.sum_nil, Entry.offered, Entry.yield] at hlt ⊢
    obtain ⟨hseen, hsaved, hdropped⟩ := h.counts (by omega)
    omega

theorem toNat_add_of_lt {a b : UInt64} (h : a.toNat + b.toNat < UInt64.size) :
    (a + b).toNat = a.toNat + b.toNat := by
  rw [UInt64.toNat_add, Nat.mod_eq_of_lt h]

theorem failureNote_eq {ρ : Type} (answer : Except Error ρ) (totals : Totals) :
    failureNote answer totals =
      if outOfStorage answer then totals.recordAllocationFailure else totals := by
  cases answer with
  | ok _ => rfl
  | error failure => rfl

/-- A failure changes no total but its own. -/
theorem failureNote_unchanged {ρ : Type} (answer : Except Error ρ) (totals : Totals) :
    (failureNote answer totals).cycles = totals.cycles ∧
      (failureNote answer totals).seen = totals.seen ∧
      (failureNote answer totals).saved = totals.saved ∧
      (failureNote answer totals).dropped = totals.dropped := by
  rw [failureNote_eq]
  split
  · exact ⟨rfl, rfl, rfl, rfl⟩
  · exact ⟨rfl, rfl, rfl, rfl⟩

/-- A member counts more events in its cycle, whether or not the call fails. -/
theorem Tallied.arrive {ρ : Type} {answer : Except Error ρ} {count : UInt64}
    (h : Tallied collector totals members entries) (hsorted : members.Sorted)
    (hmember : members.find? name = some member) (hrecords : member.collector = some collector)
    (hrecords' : member'.collector = some collector)
    (hseen : member'.reservoir.seen = member.reservoir.seen + count)
    (hoffered : entry.offered = count.toNat) (hyield : entry.yield = 0)
    (hharvest : entry.isHarvest = false) (hfailure : entry.isFailure = outOfStorage answer) :
    Tallied collector (failureNote answer totals) (members.put name member')
      (entries ++ [entry]) := by
  obtain ⟨hcycles, hseenTotal, hsavedTotal, hdroppedTotal⟩ := failureNote_unchanged answer totals
  refine ⟨?_, ?_, fun hlt => ?_⟩
  · rw [hcycles, h.cycles_eq, List.countP_append, List.countP_singleton, hharvest]
    rfl
  · rw [failureNote_eq, List.countP_append, List.countP_singleton, hfailure]
    cases houtcome : outOfStorage answer with
    | false => exact h.failures_eq
    | true =>
      simp only [if_true, Totals.recordAllocationFailure, h.failures_eq, UInt64.ofNat_add]
      rfl
  · simp only [List.map_append, List.sum_append, List.map_cons, List.map_nil, List.sum_cons,
      List.sum_nil, hoffered, hyield] at hlt ⊢
    obtain ⟨hcount, hsaved, hdropped⟩ := h.counts (by omega)
    have hbefore := underway_of_find? hsorted hmember collector
    have hafter := underway_update hsorted hmember collector member'
    rw [underway_eq_seen hrecords] at hbefore
    rw [underway_eq_seen hrecords, underway_eq_seen hrecords', hseen,
      toNat_add_of_lt (by omega)] at hafter
    rw [hseenTotal, hsavedTotal, hdroppedTotal]
    omega

/-- A harvest moves the counts of a cycle to the totals. -/
theorem Tallied.harvest {ledger : Ledger} (h : Tallied collector totals members entries)
    (hsorted : members.Sorted) (hmember : members.find? name = some member)
    (hrecords : member.collector = some collector) (hexact : member.reservoir.Exact ledger) :
    Tallied collector (totals.recordHarvest member.reservoir.stats)
      (members.put name { member with reservoir := member.reservoir.harvest.2 })
      (entries ++ [.harvested member.reservoir.harvest.1]) := by
  refine ⟨?_, ?_, fun hlt => ?_⟩
  · simp only [Totals.recordHarvest, List.countP_append, h.cycles_eq, UInt64.ofNat_add]
    rfl
  · rw [List.countP_append]
    exact h.failures_eq
  · simp only [List.map_append, List.sum_append, List.map_cons, List.map_nil, List.sum_cons,
      List.sum_nil, Entry.offered, Entry.yield] at hlt ⊢
    obtain ⟨hcount, hsaved, hdropped⟩ := h.counts (by omega)
    have hyield : member.reservoir.harvest.1.events.length = member.reservoir.stats.saved.toNat :=
      (MinMaxHeap.drain_spec .high member.reservoir.heap).1.length_eq.trans hexact.saved_eq.symm
    have hempty : ({ member with reservoir := member.reservoir.harvest.2 } :
        Member π).underway collector = 0 := underway_eq_seen hrecords
    have hbefore := underway_of_find? hsorted hmember collector
    have hafter := underway_update hsorted hmember collector
      { member with reservoir := member.reservoir.harvest.2 }
    rw [underway_eq_seen hrecords] at hbefore hafter
    have hstats := hexact.saved_add_dropped
    have hseenStats : member.reservoir.stats.seen = member.reservoir.seen := rfl
    rw [hseenStats] at hstats
    simp only [Totals.recordHarvest]
    rw [hyield, hseenStats, toNat_add_of_lt (by omega), toNat_add_of_lt (by omega),
      toNat_add_of_lt (by omega)]
    omega

end Tallied

/-! ## One command -/

section Step

variable {pool : Pool π} {command : Command π} {effect : Effect π} {collector : Nat}
  {entries : List (Entry π)} {name : String} {member member' : Member π}

theorem records_of_find? (hmember : pool.members.find? name = some member) :
    pool.records collector name = decide (member.collector = some collector) := by
  rw [records, hmember]

theorem records_update (pool : Pool π) (name : String) (member : Member π) :
    (pool.update name member).records collector name =
      decide (member.collector = some collector) :=
  records_of_find? (Directory.find?_put_self name member pool.members)

/-- A member that does not record may change as it likes. -/
theorem underway_update_eq (hsorted : pool.members.Sorted)
    (hspared : pool.records collector name = false) (member' : Member π) :
    underway collector (pool.members.put name member') =
      underway collector pool.members + member'.underway collector := by
  rw [underway_put hsorted, Nat.add_comm]
  cases hmember : pool.members.find? name with
  | none => rw [Directory.erase_of_find?_eq_none hmember]
  | some member =>
    rw [records_of_find? hmember, decide_eq_false_iff_not] at hspared
    rw [underway_of_find? hsorted hmember, underway_eq_zero hspared, Nat.zero_add]

/-- A member that does not record may leave. -/
theorem underway_erase_eq (hsorted : pool.members.Sorted)
    (hspared : pool.records collector name = false) :
    underway collector (pool.members.erase name) = underway collector pool.members := by
  cases hmember : pool.members.find? name with
  | none => rw [Directory.erase_of_find?_eq_none hmember]
  | some member =>
    rw [records_of_find? hmember, decide_eq_false_iff_not] at hspared
    rw [underway_of_find? hsorted hmember, underway_eq_zero hspared, Nat.zero_add]

/-- A member that did not record may begin to. -/
theorem Tallied.place (h : Tallied collector (pool.totalsOf collector) pool.members entries)
    (hsorted : pool.members.Sorted) (hspared : pool.records collector name = false)
    (member : Member π) :
    Tallied collector (pool.totalsOf collector) (pool.members.put name member)
      (entries ++ (if decide (member.collector = some collector) then
        some (Entry.joined member.reservoir) else none).toList) := by
  have hunderway := underway_update_eq hsorted hspared member
  by_cases hrecords : member.collector = some collector
  · rw [underway_eq_seen hrecords] at hunderway
    rw [decide_eq_true hrecords]
    exact h.join member.reservoir hunderway
  · rw [underway_eq_zero hrecords] at hunderway
    rw [decide_eq_false hrecords]
    simp only [Bool.false_eq_true, if_false, Option.toList_none, List.append_nil]
    exact h.of_underway_eq hunderway

/-- A call on a member that records is entered, and one on any other member is not. -/
theorem Tallied.call {entry : Entry π} {change : Totals → Totals}
    (h : Tallied collector (pool.totalsOf collector) pool.members entries)
    (hsorted : pool.members.Sorted) (hmember : pool.members.find? name = some member)
    (hcollector : member'.collector = member.collector)
    (hcall : member.collector = some collector →
      Tallied collector (change (pool.totalsOf collector)) (pool.members.put name member')
        (entries ++ [entry])) :
    Tallied collector
      (if member.collector = some collector then change (pool.totalsOf collector)
        else pool.totalsOf collector)
      (pool.members.put name member')
      (entries ++ (if pool.records collector name then some entry else none).toList) := by
  rw [records_of_find? hmember]
  by_cases hrecords : member.collector = some collector
  · rw [decide_eq_true hrecords, if_pos hrecords]
    exact hcall hrecords
  · have hspared : pool.records collector name = false := by
      rw [records_of_find? hmember, decide_eq_false hrecords]
    have hunderway := underway_update_eq hsorted hspared member'
    rw [underway_eq_zero (hcollector.trans_ne hrecords)] at hunderway
    rw [decide_eq_false hrecords, if_neg hrecords]
    simp only [Bool.false_eq_true, if_false, Option.toList_none, List.append_nil]
    exact h.of_underway_eq hunderway

/-- A command that means nothing to a collector is not entered. -/
theorem Tallied.quiet (h : Tallied collector (pool.totalsOf collector) pool.members entries)
    (hentry : pool.logged? collector command effect = none)
    (htotals : effect.state.totalsOf collector = pool.totalsOf collector)
    (hunderway : underway collector effect.state.members = underway collector pool.members) :
    Tallied collector (effect.state.totalsOf collector) effect.state.members
      (entries ++ (pool.logged? collector command effect).toList) := by
  rw [hentry, htotals, Option.toList_none, List.append_nil]
  exact h.of_underway_eq hunderway

/-- A reservoir that was there already begins to record. -/
theorem Tallied.share {handle : Option String} {number : Nat} {pool' : Pool π}
    (h : Tallied collector (pool.totalsOf collector) pool.members entries)
    (hsorted : pool.members.Sorted) (hspared : pool.records collector name = false)
    (hmember : pool.members.find? name = some member)
    (hcollector : pool.collectorFor handle = some (number, pool')) :
    let shared := pool'.update name { member with collector := some number }
    Tallied collector (shared.totalsOf collector) shared.members
      (entries ++ (pool.logged? collector (.share name handle) (.quiet .done shared)).toList) := by
  intro shared
  have hplaced := h.place hsorted hspared { member with collector := some number }
  rw [← totalsOf_collectorFor hcollector, ← members_of_collectorFor hcollector,
    ← records_update pool' name { member with collector := some number }] at hplaced
  have hfound : pool.reservoir? name = some member.reservoir := by
    rw [reservoir?, hmember, Option.map_some]
  have hentry : pool.logged? collector (.share name handle) (.quiet .done shared) =
      if shared.records collector name then (pool.reservoir? name).map .joined else none := rfl
  rw [hentry, hfound]
  exact hplaced

/-- The donor of a merge leaves, and what it has counted goes to the receiver. -/
theorem Tallied.merge {donor : String} {other : Member π}
    {step : Transition (Reservoir π) (Event π) (Except Error Unit)}
    (h : Tallied collector (pool.totalsOf collector) pool.members entries)
    (hsorted : pool.members.Sorted) (hnumbered : pool.Numbered)
    (hspared : pool.records collector donor = false) (hne : name ≠ donor)
    (hmember : pool.members.find? name = some member)
    (hother : pool.members.find? donor = some other)
    (hstep : member.reservoir.merge member.memory other.reservoir = step) :
    let merged := ({ pool with members :=
      (pool.members.erase donor).put name { member with reservoir := step.state } } :
        Pool π).recordFor member (failureNote step.answer)
    Tallied collector (merged.totalsOf collector) merged.members
      (entries ++ (pool.logged? collector (.merge name donor)
        ⟨.merged step.answer, merged, step.discards⟩).toList) := by
  subst hstep
  let others : Pool π := { pool with members := pool.members.erase donor }
  have hothers : Tallied collector (others.totalsOf collector) others.members entries :=
    h.of_underway_eq (underway_erase_eq hsorted hspared)
  have hfound : others.members.find? name = some member := by
    rw [Directory.find?_erase_of_ne hne, hmember]
  have hdonor : pool.reservoir? donor = some other.reservoir := by
    rw [reservoir?, hother, Option.map_some]
  have hrecords : pool.records collector name = others.records collector name := by
    rw [records_of_find? hmember, records_of_find? hfound]
  simp only [logged?, hdonor, Option.map_some, hrecords, hnumbered.totalsOf_recordFor hmember,
    members_recordFor]
  refine hothers.call (hsorted.erase donor) hfound rfl fun hrecords => ?_
  exact hothers.arrive (hsorted.erase donor) hfound hrecords hrecords
    (Reservoir.seen_absorb _ _ _) rfl rfl rfl rfl

/-- Every command that spares a collector keeps its totals and its log in step. -/
theorem Step.tallied (hstep : Step pool command effect) (hsorted : pool.members.Sorted)
    (hnumbered : pool.Numbered) (hspares : command.Spares collector pool)
    (hexact : ∀ name member, pool.members.find? name = some member →
      ∃ ledger, member.reservoir.Exact ledger)
    (h : Tallied collector (pool.totalsOf collector) pool.members entries) :
    Tallied collector (effect.state.totalsOf collector) effect.state.members
      (entries ++ (pool.logged? collector command effect).toList) := by
  cases hstep with
  | @missing command =>
    refine h.quiet ?_ rfl rfl
    cases command with
    | _ => rfl
  | placedLocal => exact h.quiet rfl rfl (underway_update_eq hsorted hspares _)
  | @placedShared name reservoir =>
    let member : Member π := ⟨reservoir, some pool.collectors.length, .ample⟩
    have hplaced := h.place hsorted hspares member
    rw [← totalsOf_addCollector, ← records_update pool.addCollector.2 name member] at hplaced
    exact hplaced
  | shared hmember hcollector => exact h.share hsorted hspares hmember hcollector
  | @added name event member step hmember hstep =>
    subst hstep
    simp only [update, hnumbered.totalsOf_recordFor hmember, members_recordFor]
    refine h.call hsorted hmember rfl fun hrecords => ?_
    exact h.arrive hsorted hmember hrecords hrecords (Reservoir.seen_add _ _ _) rfl rfl rfl rfl
  | merged hne hmember hother hstep =>
    exact h.merge hsorted hnumbered hspares hne hmember hother hstep
  | @harvested name member hmember =>
    obtain ⟨ledger, hledger⟩ := hexact name member hmember
    simp only [Transition.quiet, update, hnumbered.totalsOf_recordFor hmember, members_recordFor]
    refine h.call hsorted hmember rfl fun hrecords => ?_
    exact h.harvest hsorted hmember hrecords hledger
  | unshared hmember => exact h.quiet rfl rfl (underway_update_eq hsorted hspares _)
  | dropped hmember => exact h.quiet rfl rfl (underway_erase_eq hsorted hspares)
  | popped hmember hpop =>
    have hseen := Reservoir.seen_pop hpop
    exact h.quiet rfl rfl (underway_update_of_seen_eq hsorted hmember rfl hseen)
  | popMissed | copied | handed => exact h.quiet rfl rfl rfl
  | hooked hmember | supplied hmember =>
    exact h.quiet rfl rfl (underway_update_of_seen_eq hsorted hmember rfl rfl)
  | opened => exact h.quiet rfl (totalsOf_addCollector collector pool) rfl
  | @recorded command handle change number hcommand hhandle =>
    have hne : number ≠ collector ∧ pool.logged? collector command
        (.quiet .done (pool.record number change)) = none := by
      cases command with
      | recordHarvest | recordFailure | reset =>
        cases hcommand
        exact ⟨fun heq => hspares (heq ▸ hhandle), rfl⟩
      | _ => cases hcommand
    exact h.quiet hne.2 (totalsOf_record_of_ne hne.1) rfl

end Step

/-! ## Every history -/

section Run

variable {pool : Pool π} {books : Books} {added collector : Nat} {entries : List (Entry π)}
  {history : List (Command π)}

theorem Tallied.run (h : Tallied collector (pool.totalsOf collector) pool.members entries)
    (hsorted : pool.members.Sorted) (hnumbered : pool.Numbered)
    (hkept : Kept pool.members books added) (hnew : ∀ command ∈ history, command.PlacesNew)
    (hspares : Along (Command.Spares collector) pool history)
    (hcounts : ∀ before after, history = before ++ after →
      ∀ name, (books.run pool before name).seen < UInt64.size) :
    Tallied collector ((pool.run history).state.totalsOf collector)
      (pool.run history).state.members (entries ++ log collector pool history) := by
  induction history generalizing pool books added entries with
  | nil =>
    rw [log, List.append_nil]
    exact h
  | cons command later ih =>
    obtain ⟨hfirst, hlater⟩ := hspares
    have hstep := step_apply pool command
    have hexact : ∀ name member, pool.members.find? name = some member →
        ∃ ledger, member.reservoir.Exact ledger := by
      intro name member hmember
      exact ⟨_, (hkept.accounts name member hmember).exact (hcounts [] _ rfl name)⟩
    have htallied := hstep.tallied hsorted hnumbered hfirst hexact h
    have hrun := ih htallied (hstep.sorted hsorted) (hstep.numbered hnumbered)
      (hkept.apply (hnew command List.mem_cons_self))
      (fun other hother => hnew other (List.mem_cons_of_mem command hother)) hlater
      (fun before after hsplit => hcounts (command :: before) after (congrArg _ hsplit))
    rwa [List.append_assoc] at hrun

end Run

end Pool

end PrioritySampling
