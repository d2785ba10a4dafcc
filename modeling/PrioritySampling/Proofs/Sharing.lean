import PrioritySampling.Export.Envelope
import PrioritySampling.Proofs.Growth
import PrioritySampling.Proofs.Ranking
import PrioritySampling.Proofs.Steps
import PrioritySampling.Proofs.Sufficiency
/-!
# Sharing the work of a reservoir

Events may be offered to one reservoir, or to several whose limits are at least as wide and which
are merged into that one in the end.  It makes no difference: what the reservoir holds at last has
the same keys, and its counts are the same.

`Sharing` is what holds of each reservoir on the way.  It has a share of the offered events, its
counts add up to that share, and what it holds suffices for the share under the limit that counts
in the end.  A merge joins two shares.  While the events of the donor are being taken over, those
that are still to come belong to what is held.

The reservoir to compare with gets all the events itself, and it must not be refused the storage
for them.  `Memory.Serves` says that it is not: whatever a new reservoir asks for until it has
taken in so many events is granted.  The storage of a reservoir without limit is a chunk that has
been doubled some number of times, so these requests can be listed beforehand.
-/

namespace PrioritySampling

namespace Memory

/-! ## Storage for a new reservoir -/

/-- No request is refused that a new reservoir of some capacity makes while it takes in so many
events. -/
structure Serves (memory : Memory) (capacity count : Nat) : Prop where
  /-- It asks for its capacity at first, or for a chunk if it has no limit. -/
  initial : memory.reserves (if capacity = 0 then MinMaxHeap.chunk else capacity) = true
  /-- Without a limit it asks for twice its storage whenever this is too small. -/
  doubled : capacity = 0 → ∀ k, MinMaxHeap.chunk * 2 ^ k < count →
    memory.reserves (2 * (MinMaxHeap.chunk * 2 ^ k)) = true

theorem reserves_ample {slots : Nat} (h : slots < ceiling) : ample.reserves slots = true := by
  rw [reserves, decide_eq_true h]
  rfl

/-- Memory that refuses nothing below the ceiling serves as long as the ceiling is far enough. -/
theorem serves_ample {capacity count : Nat} (hcapacity : capacity < ceiling)
    (hcount : 2 * count ≤ ceiling) : ample.Serves capacity count where
  initial := by
    refine reserves_ample ?_
    split
    · exact MinMaxHeap.chunk_lt_ceiling
    · exact hcapacity
  doubled := by
    intro _ k hslots
    exact reserves_ample (by omega)

end Memory

namespace Reservoir

variable {π : Type} {limit : Limit} {reservoir other : Reservoir π}
  {offered offered' pending events : List (Event π)} {memory : Memory} {event : Event π}

/-! ## The share of a reservoir -/

/-- A reservoir that was offered some events has kept enough of them for a limit, together with
those that are counted already and still pending. -/
structure Sharing (limit : Limit) (reservoir : Reservoir π) (offered pending : List (Event π)) :
    Prop where
  ordered : reservoir.heap.Ordered
  wide : limit ≤ reservoir.heap.limit
  accounts : ∃ rejected evicted,
    reservoir.Accounts ⟨offered.length, rejected, evicted, 0, 0⟩ pending.length
  kept : MinMaxHeap.Suffices Event.rank limit offered (reservoir.events ++ pending)

theorem Made.sharing (h : reservoir.Made) (hle : limit ≤ reservoir.heap.limit) :
    Sharing limit reservoir [] [] := by
  have haccounts := h.accounts
  obtain ⟨name, heap, hheap, rfl⟩ := h.exists_heap
  have hnil : heap.toList = [] := hheap.toList_eq_nil
  refine ⟨MinMaxHeap.ordered_of_toList_eq_nil hnil, hle, ⟨0, 0, haccounts⟩, ?_⟩
  show MinMaxHeap.Suffices Event.rank limit [] (heap.toList ++ [])
  rw [hnil]
  exact MinMaxHeap.suffices_self []

theorem Sharing.setHook (h : Sharing limit reservoir offered []) (hook : Hook) :
    Sharing limit (reservoir.setHook hook) offered [] := by
  obtain ⟨rejected, evicted, haccounts⟩ := h.accounts
  exact ⟨h.ordered, h.wide, ⟨rejected, evicted, haccounts.setHook hook⟩, h.kept⟩

theorem Sharing.of_perm (h : Sharing limit reservoir offered pending)
    (hperm : offered.Perm offered') : Sharing limit reservoir offered' pending := by
  obtain ⟨rejected, evicted, haccounts⟩ := h.accounts
  rw [hperm.length_eq] at haccounts
  exact ⟨h.ordered, h.wide, ⟨rejected, evicted, haccounts⟩, h.kept.of_perm hperm (.refl _)⟩

/-- The next pending event is offered, and there is storage for it. -/
theorem Sharing.offer {outcome : Insertion}
    (h : Sharing limit reservoir offered (event :: pending))
    (hstored : (reservoir.offer memory event).answer = .ok outcome) :
    Sharing limit (reservoir.offer memory event).state offered pending := by
  obtain ⟨rejected, evicted, haccounts⟩ := h.accounts
  rw [answer_offer] at hstored
  have hsound := haccounts.sound
  have hoffer := MinMaxHeap.offer_insert hsound memory event
  have hheap := heap_offer memory event reservoir
  refine ⟨?_, ?_, ?_, ?_⟩
  · rw [hheap]
    exact h.ordered.offer hoffer
  · rw [hheap, hoffer.unchanged.1]
    exact h.wide
  · have hstep := haccounts.offer memory event
    rw [hstored] at hstep
    cases outcome with
    | inserted => exact ⟨rejected, evicted, hstep⟩
    | replaced => exact ⟨rejected, evicted + 1, hstep⟩
    | rejected => exact ⟨rejected + 1, evicted, hstep⟩
  · rw [events, hheap]
    refine (h.kept.of_perm (.refl _) List.perm_middle).offer hsound h.ordered h.wide hoffer ?_
    intro failure hfailure
    rw [hstored] at hfailure
    cases hfailure

/-- An event joins the share when it is added. -/
theorem Sharing.add {displaced : Bool} (h : Sharing limit reservoir offered [])
    (hstored : (reservoir.add memory event).answer = .ok displaced) :
    Sharing limit (reservoir.add memory event).state (offered ++ [event]) [] := by
  obtain ⟨rejected, evicted, haccounts⟩ := h.accounts
  have hseen : Sharing limit { reservoir with seen := reservoir.seen + 1 } (offered ++ [event])
      [event] := by
    refine ⟨h.ordered, h.wide, ⟨rejected, evicted, ?_⟩, ?_⟩
    · have hbalance := haccounts.balance
      refine ⟨haccounts.sound, ?_, haccounts.rejected_eq, haccounts.evicted_eq, ?_⟩
      · simp only [List.length_append, List.length_singleton, ofNat_succ, haccounts.seen_eq]
      · simp only [List.length_append, List.length_singleton, List.length_nil] at hbalance ⊢
        omega
    · have hkept := h.kept
      rw [List.append_nil] at hkept
      exact hkept.append (MinMaxHeap.suffices_self [event])
  rw [Reservoir.add] at hstored ⊢
  cases hanswer : (({ reservoir with seen := reservoir.seen + 1 } : Reservoir π).offer memory
    event).answer with
  | ok outcome => exact hseen.offer hanswer
  | error failure =>
    simp only [hanswer, Except.map] at hstored
    cases hstored

/-- All pending events are offered, and there is storage for each. -/
theorem Sharing.absorb (h : Sharing limit reservoir offered pending)
    (hstored : (reservoir.absorb memory pending).answer = .ok ()) :
    Sharing limit (reservoir.absorb memory pending).state offered [] := by
  induction pending generalizing reservoir with
  | nil => exact h
  | cons event later ih =>
    rw [Reservoir.absorb] at hstored ⊢
    cases hanswer : (reservoir.offer memory event).answer with
    | ok outcome =>
      simp only [hanswer] at hstored ⊢
      exact ih (h.offer hanswer) hstored
    | error failure =>
      simp only [hanswer] at hstored
      cases hstored

/-- The receiver of a merge takes over the share of the donor. -/
theorem Sharing.merge (h : Sharing limit reservoir offered [])
    (h' : Sharing limit other offered' [])
    (hstored : (reservoir.merge memory other).answer = .ok ()) :
    Sharing limit (reservoir.merge memory other).state (offered ++ offered') [] := by
  obtain ⟨rejected, evicted, haccounts⟩ := h.accounts
  obtain ⟨rejected', evicted', haccounts'⟩ := h'.accounts
  have hjoined : Sharing limit (reservoir.addCounts other) (offered ++ offered') other.events := by
    refine ⟨h.ordered, h.wide, ⟨rejected + rejected', evicted + evicted', ?_⟩, ?_⟩
    · have hbalance := haccounts.balance
      have hbalance' := haccounts'.balance
      have hlength : other.events.length = other.heap.size := rfl
      refine ⟨haccounts.sound, ?_, ?_, ?_, ?_⟩
      · simp only [addCounts, List.length_append, UInt64.ofNat_add, haccounts.seen_eq,
          haccounts'.seen_eq]
      · simp only [addCounts, UInt64.ofNat_add, haccounts.rejected_eq, haccounts'.rejected_eq]
      · simp only [addCounts, UInt64.ofNat_add, haccounts.evicted_eq, haccounts'.evicted_eq]
      · simp only [addCounts, List.length_append, List.length_nil] at hbalance hbalance' ⊢
        omega
    · have hkept := h.kept.append h'.kept
      simp only [List.append_nil] at hkept
      exact hkept
  exact hjoined.absorb hstored

/-! ## Filling one reservoir -/

theorem Sharing.limit_add (h : Sharing limit reservoir offered []) (memory : Memory)
    (event : Event π) : (reservoir.add memory event).state.heap.limit = reservoir.heap.limit := by
  obtain ⟨rejected, evicted, haccounts⟩ := h.accounts
  rw [heap_add]
  exact (MinMaxHeap.offer_insert haccounts.sound memory event).unchanged.1

/-- A reservoir that has been filled has all the events in its share. -/
theorem Sharing.fill {filled : Reservoir π} (h : Sharing limit reservoir offered [])
    (hfill : reservoir.fill memory events = .ok filled) :
    Sharing limit filled (offered ++ events) [] ∧ filled.heap.limit = reservoir.heap.limit := by
  induction events generalizing reservoir offered with
  | nil =>
    cases hfill
    rw [List.append_nil]
    exact ⟨h, rfl⟩
  | cons event later ih =>
    rw [Reservoir.fill] at hfill
    cases hanswer : (reservoir.add memory event).answer with
    | error failure =>
      simp only [hanswer] at hfill
      cases hfill
    | ok displaced =>
      simp only [hanswer] at hfill
      obtain ⟨hshare, hlimit⟩ := ih (h.add hanswer) hfill
      rw [List.append_assoc, List.singleton_append] at hshare
      exact ⟨hshare, hlimit.trans (h.limit_add memory event)⟩

/-- Nothing but a refused request for storage keeps a reservoir from being filled, and one with a
limit makes none. -/
theorem refused_of_fill {failure : Error} (hsound : reservoir.heap.Sound)
    (hfill : reservoir.fill memory events = .error failure) :
    reservoir.heap.limit = .unbounded ∧
      ∃ slots, failure = .allocationFailed slots ∧ memory.reserves slots = false := by
  induction events generalizing reservoir with
  | nil => cases hfill
  | cons event later ih =>
    have hoffer := MinMaxHeap.offer_insert hsound memory event
    have hheap := heap_add memory event reservoir
    rw [Reservoir.fill, answer_add] at hfill
    cases hinsert : (reservoir.heap.insert memory event).answer with
    | ok outcome =>
      simp only [hinsert, Except.map] at hfill
      obtain ⟨hlimit, hrefused⟩ := ih (sound_add hsound memory event) hfill
      rw [hheap, hoffer.unchanged.1] at hlimit
      exact ⟨hlimit, hrefused⟩
    | error failure =>
      simp only [hinsert, Except.map] at hfill
      cases hfill
      obtain ⟨hlimit, -, hreserves, hfailure⟩ := hoffer.refusal_of_error hinsert
      exact ⟨hlimit, _, hfailure, hreserves⟩

/-- A reservoir takes in all events if it is not refused the storage for them. -/
theorem exists_fill (hsound : reservoir.heap.Sound)
    (htight : reservoir.heap.limit = .unbounded →
      ∃ peak, MinMaxHeap.Tight peak reservoir.heap)
    (hserves : reservoir.heap.limit = .unbounded →
      ∀ k, MinMaxHeap.chunk * 2 ^ k < reservoir.heap.size + events.length →
        memory.reserves (2 * (MinMaxHeap.chunk * 2 ^ k)) = true) :
    ∃ filled, reservoir.fill memory events = .ok filled := by
  induction events generalizing reservoir with
  | nil => exact ⟨reservoir, rfl⟩
  | cons event later ih =>
    have hoffer := MinMaxHeap.offer_insert hsound memory event
    have hheap := heap_add memory event reservoir
    rw [List.length_cons] at hserves
    rw [fill, answer_add]
    cases hanswer : (reservoir.heap.insert memory event).answer with
    | error failure =>
      -- All slots are in use, so this is one of the requests that are granted.
      obtain ⟨hlimit, hsize, hreserves, -⟩ := hoffer.refusal_of_error hanswer
      obtain ⟨peak, hpeak⟩ := htight hlimit
      obtain ⟨k, hcapacity⟩ := hpeak.isLeast.1.1
      have hgranted := hserves hlimit k (by omega)
      rw [← hcapacity, hreserves] at hgranted
      cases hgranted
    | ok outcome =>
      refine ih (sound_add hsound memory event) ?_ ?_
      · rw [hheap, hoffer.unchanged.1]
        intro hlimit
        obtain ⟨peak, hpeak⟩ := htight hlimit
        exact ⟨_, hpeak.offer hlimit hoffer⟩
      · rw [hheap, hoffer.unchanged.1]
        intro hlimit k hslots
        have hsize := hoffer.size_le
        exact hserves hlimit k (by omega)

/-- A new reservoir takes in the events that there is storage for. -/
theorem Made.exists_fill {start : Reservoir π} (hstart : start.Made)
    (hserves : memory.Serves start.heap.limit.toNat events.length) :
    ∃ filled, start.fill memory events = .ok filled := by
  obtain ⟨name, heap, hheap, rfl⟩ := hstart.exists_heap
  have hsize : (fresh name heap).heap.size = 0 := congrArg List.length hheap.toList_eq_nil
  refine Reservoir.exists_fill hheap.sound (fun hlimit => ⟨_, hheap.tight hlimit⟩) ?_
  rw [hsize, Nat.zero_add]
  intro hlimit
  exact hserves.doubled (congrArg Limit.toNat hlimit)

/-- The events that a reservoir holds in the end are the greatest of its share. -/
theorem Sharing.selects (h : Sharing reservoir.heap.limit reservoir offered []) :
    reservoir.heap.size = reservoir.heap.limit.clip offered.length ∧
      ∃ gone, offered.Perm (reservoir.events ++ gone) ∧
        ∀ a ∈ gone, ∀ b ∈ reservoir.events, Comparator.greater Event.rank a b = false := by
  obtain ⟨rejected, evicted, haccounts⟩ := h.accounts
  have hkept := h.kept
  rw [List.append_nil] at hkept
  refine hkept.selects ?_
  cases hlimit : reservoir.heap.limit with
  | unbounded => trivial
  | atMost count =>
    show reservoir.heap.size ≤ count
    rw [← haccounts.sound.capacity_eq count hlimit]
    exact haccounts.sound.size_le

/-- Two reservoirs of one limit with the same share hold the same keys. -/
theorem Sharing.keys_perm (h : Sharing limit reservoir offered [])
    (h' : Sharing limit other offered' []) (hlimit : reservoir.heap.limit = limit)
    (hlimit' : other.heap.limit = limit) (hoffered : offered.Perm offered') :
    (reservoir.events.map Event.key).Perm (other.events.map Event.key) := by
  rw [← hlimit] at h
  rw [← hlimit'] at h'
  obtain ⟨hsize, gone, hperm, houtranked⟩ := h.selects
  obtain ⟨hsize', gone', hperm', houtranked'⟩ := h'.selects
  have hsum : (reservoir.events + gone : Multiset (Event π)) = other.events + gone' :=
    Multiset.coe_eq_coe.mpr ((hperm.symm.trans hoffered).trans hperm')
  have hcard : reservoir.events.length = other.events.length := by
    show reservoir.heap.size = other.heap.size
    rw [hsize, hsize', hlimit, hlimit', hoffered.length_eq]
  exact Multiset.coe_eq_coe.mp
    (Event.map_key_of_rel (MinMaxHeap.rel_of_outranked hsum hcard houtranked houtranked'))

end Reservoir

namespace Pool

open Reservoir (Sharing)

variable {π : Type}

/-! ## Commands that share -/

/-- The event that a command offers. -/
def Command.events : Command π → List (Event π)
  | .add _ event => [event]
  | _ => []

/-- A call on a reservoir was heard and found storage. -/
def Answer.accepted : Answer π → Bool
  | .added outcome => outcome.isOk
  | .merged outcome => outcome.isOk
  | _ => false

/-- What may be done while reservoirs share the events for one with the given limit: every new
reservoir has a limit that is at least as wide, every event is stored or passed over by one of
them, and nothing leaves a reservoir but by a merge. -/
def Command.Shares (limit : Limit) (pool : Pool π) : Command π → Prop
  | .placeLocal name reservoir | .placeShared name reservoir =>
    reservoir.Made ∧ limit ≤ reservoir.heap.limit ∧ pool.members.find? name = none
  | .add name event => (pool.add name event).answer.accepted = true
  | .merge name donor => (pool.merge name donor).answer.accepted = true
  | .pop _ _ | .harvest _ | .drop _ => False
  | _ => True

/-- Every reservoir has its share, and together the shares are all the events that have been
offered. -/
def Sharded (limit : Limit) (members : Directory (Member π)) (offered : List (Event π)) : Prop :=
  members.Sorted ∧ ∃ shares : String → List (Event π),
    (∀ name member, members.find? name = some member →
      Sharing limit member.reservoir (shares name) []) ∧
    offered.Perm (members.entries.flatMap fun entry => shares entry.1)

section Sharded

variable {limit : Limit} {members : Directory (Member π)} {offered extra : List (Event π)}
  {name : String} {member member' : Member π}

theorem sharded_empty : Sharded limit (empty : Pool π).members [] :=
  ⟨.nil, fun _ => [], fun _ _ h => absurd h nofun, .nil⟩

theorem Sharded.of_perm {offered' : List (Event π)} (h : Sharded limit members offered)
    (hperm : offered.Perm offered') : Sharded limit members offered' := by
  obtain ⟨hsorted, shares, hmembers, hshares⟩ := h
  exact ⟨hsorted, shares, hmembers, hperm.symm.trans hshares⟩

/-- A reservoir that leaves takes its share along. -/
theorem Sharded.erase (h : Sharded limit members offered)
    (hmember : members.find? name = some member) :
    ∃ share rest, Sharing limit member.reservoir share [] ∧ offered.Perm (rest ++ share) ∧
      Sharded limit (members.erase name) rest := by
  obtain ⟨hsorted, shares, hmembers, hperm⟩ := h
  refine ⟨shares name, (members.erase name).entries.flatMap fun entry => shares entry.1,
    hmembers name member hmember, ?_, hsorted.erase name, shares, ?_, .refl _⟩
  · have hfind := hsorted.flatMap_of_find? (fun entry => shares entry.1) hmember
    exact (hperm.trans hfind).trans List.perm_append_comm
  · exact Directory.forall_find?_erase fun other held _ hheld => hmembers other held hheld

/-- A reservoir that comes brings its share. -/
theorem Sharded.put_of_erase (h : Sharded limit (members.erase name) offered)
    (hsorted : members.Sorted) (hshare : Sharing limit member.reservoir extra []) :
    Sharded limit (members.put name member) (offered ++ extra) := by
  obtain ⟨-, shares, hmembers, hperm⟩ := h
  refine ⟨hsorted.put name member, Function.update shares name extra, ?_, ?_⟩
  · refine Directory.forall_find?_put ?_ fun other held hne hheld => ?_
    · rwa [Function.update_self]
    · rw [Function.update_of_ne hne]
      exact hmembers other held (by rwa [Directory.find?_erase_of_ne hne])
  · have hput := hsorted.flatMap_put
      (fun entry => Function.update shares name extra entry.1) name member
    have hothers : ((members.erase name).entries.flatMap fun entry =>
        Function.update shares name extra entry.1) =
        (members.erase name).entries.flatMap fun entry => shares entry.1 :=
      Directory.flatMap_erase_congr fun _ hne => Function.update_of_ne hne extra shares
    simp only [hothers, Function.update_self] at hput
    exact ((hperm.append_right extra).trans List.perm_append_comm).trans hput.symm

/-- A new reservoir has no share yet. -/
theorem Sharded.insert (h : Sharded limit members offered) (hfree : members.find? name = none)
    (hnew : member.reservoir.Made) (hwide : limit ≤ member.reservoir.heap.limit) :
    Sharded limit (members.put name member) offered := by
  have herase : Sharded limit (members.erase name) offered := by
    rwa [Directory.erase_of_find?_eq_none hfree]
  have hput := herase.put_of_erase h.1 (hnew.sharing hwide)
  rwa [List.append_nil] at hput

/-- A reservoir changes, and some events join its share. -/
theorem Sharded.put (h : Sharded limit members offered)
    (hmember : members.find? name = some member)
    (hshare : ∀ share, Sharing limit member.reservoir share [] →
      Sharing limit member'.reservoir (share ++ extra) []) :
    Sharded limit (members.put name member') (offered ++ extra) := by
  obtain ⟨share, rest, hsharing, hperm, hrest⟩ := h.erase hmember
  refine (hrest.put_of_erase h.1 (hshare share hsharing)).of_perm ?_
  rw [← List.append_assoc]
  exact hperm.symm.append_right extra

/-- A reservoir changes in a way that leaves its share as it is. -/
theorem Sharded.change (h : Sharded limit members offered)
    (hmember : members.find? name = some member)
    (hshare : ∀ share, Sharing limit member.reservoir share [] →
      Sharing limit member'.reservoir share []) :
    Sharded limit (members.put name member') offered := by
  have hput : Sharded limit (members.put name member') (offered ++ []) := by
    refine h.put hmember fun share hsharing => ?_
    rw [List.append_nil]
    exact hshare share hsharing
  rwa [List.append_nil] at hput

/-- The share of the donor of a merge becomes part of that of the receiver. -/
theorem Sharded.merge {donor : String} {other : Member π} (h : Sharded limit members offered)
    (hne : name ≠ donor) (hmember : members.find? name = some member)
    (hother : members.find? donor = some other)
    (hmerge : ∀ share share', Sharing limit member.reservoir share [] →
      Sharing limit other.reservoir share' [] →
      Sharing limit member'.reservoir (share ++ share') []) :
    Sharded limit ((members.erase donor).put name member') offered := by
  obtain ⟨share', rest, hsharing', hperm, hrest⟩ := h.erase hother
  rw [← Directory.find?_erase_of_ne hne] at hmember
  refine (hrest.put hmember fun share hsharing => ?_).of_perm hperm.symm
  exact hmerge share share' hsharing hsharing'

/-- The only reservoir has all events in its share. -/
theorem Sharded.sharing_of_only (h : Sharded limit members offered)
    (hmember : members.find? name = some member)
    (honly : ∀ other, other ≠ name → members.find? other = none) :
    Sharing limit member.reservoir offered [] := by
  obtain ⟨share, rest, hsharing, hperm, -, shares, -, hrest⟩ := h.erase hmember
  have hnil : (members.erase name).entries = [] := by
    refine (h.1.erase name).entries_eq_nil fun other => ?_
    by_cases heq : other = name
    · rw [heq, Directory.find?_erase_self]
    · rw [Directory.find?_erase_of_ne heq, honly other heq]
  rw [hnil] at hrest
  rw [hrest.eq_nil, List.nil_append] at hperm
  exact hsharing.of_perm hperm.symm

end Sharded

/-! ## Histories that share -/

section Run

variable {limit : Limit} {pool : Pool π} {offered : List (Event π)} {command : Command π}

theorem Command.events_of_record? {change : String × (Totals → Totals)}
    (h : command.record? = some change) : command.events = [] := by
  cases command with
  | add name event => cases h
  | _ => rfl

/-- Every command that shares keeps the shares. -/
theorem Sharded.apply (h : Sharded limit pool.members offered)
    (hshares : command.Shares limit pool) :
    Sharded limit (pool.apply command).state.members (offered ++ command.events) := by
  have hquiet : ∀ {members : Directory (Member π)}, command.events = [] →
      Sharded limit members offered → Sharded limit members (offered ++ command.events) := by
    intro members hevents hmembers
    rwa [hevents, List.append_nil]
  have hstep := step_apply pool command
  generalize heffect : pool.apply command = effect at hstep ⊢
  cases hstep with
  | missing =>
    refine hquiet ?_ h
    cases command with
    | add name event =>
      have hmissing : pool.add name event = .quiet .missing pool := heffect
      simp [Command.Shares, hmissing, Transition.quiet, Answer.accepted] at hshares
    | _ => rfl
  | placedLocal | placedShared =>
    obtain ⟨hnew, hwide, hfree⟩ := hshares
    exact hquiet rfl (h.insert hfree hnew hwide)
  | @added name event member step hmember hstep =>
    have hadded : pool.add name event = _ := heffect
    simp only [Command.Shares, hadded, Answer.accepted] at hshares
    simp only [members_recordFor]
    refine h.put hmember fun share hsharing => ?_
    subst hstep
    cases hanswer : (member.reservoir.add member.memory event).answer with
    | ok displaced => exact hsharing.add hanswer
    | error failure =>
      rw [hanswer] at hshares
      cases hshares
  | @merged name donor member other step hne hmember hother hstep =>
    have hmerged : pool.merge name donor = _ := heffect
    simp only [Command.Shares, hmerged, Answer.accepted] at hshares
    simp only [members_recordFor]
    refine hquiet rfl (h.merge hne hmember hother fun share share' hsharing hsharing' => ?_)
    subst hstep
    cases hanswer : (member.reservoir.merge member.memory other.reservoir).answer with
    | ok done => exact hsharing.merge hsharing' hanswer
    | error failure =>
      rw [hanswer] at hshares
      cases hshares
  | popped | popMissed | harvested | dropped => exact hshares.elim
  | hooked hmember => exact hquiet rfl (h.change hmember fun _ hsharing => hsharing.setHook _)
  | supplied hmember | unshared hmember =>
    exact hquiet rfl (h.change hmember fun _ hsharing => hsharing)
  | shared hmember hcollector =>
    have hmembers := members_of_collectorFor hcollector
    refine hquiet rfl ?_
    simp only [Transition.quiet, update, hmembers]
    exact h.change hmember fun _ hsharing => hsharing
  | opened | copied | handed => exact hquiet rfl h
  | recorded hcommand hhandle => exact hquiet (Command.events_of_record? hcommand) h

theorem Sharded.run {history : List (Command π)} (h : Sharded limit pool.members offered)
    (hshares : Along (Command.Shares limit) pool history) :
    Sharded limit (pool.run history).state.members
      (offered ++ history.flatMap Command.events) := by
  induction history generalizing pool offered with
  | nil =>
    rw [List.flatMap_nil, List.append_nil]
    exact h
  | cons command later ih =>
    obtain ⟨hfirst, hlater⟩ := hshares
    have hrun := ih (h.apply hfirst) hlater
    rwa [List.append_assoc, ← List.flatMap_cons] at hrun

end Run

/-! ## Every way to share -/

/-- Events are offered to reservoirs, each with a limit at least as wide as the one that counts,
and merged until a reservoir with that very limit is the only one.  Its counts are those of all
the events, it has saved as many as the limit allows, and what it holds has the same keys as what
a new reservoir holds that was offered the same events one by one in any order.  Nothing can keep
the new reservoir from taking them in but a request for storage that is refused.

A reservoir leaves the pool by a merge into another and in no other way here, and every merge of two
reservoirs that are there takes the donor out (`reservoir?_apply_merge`).  So that the target is the
only one in the end means that all the others have been merged into it, directly or through one
another. -/
theorem sharing_of_run {limit : Limit} {history : List (Command π)} {target : String}
    {reservoir : Reservoir π} (hshares : Along (Command.Shares limit) empty history)
    (htarget : (empty.run history).state.reservoir? target = some reservoir)
    (hlimit : reservoir.heap.limit = limit)
    (honly : ∀ name, name ≠ target → (empty.run history).state.reservoir? name = none) :
    let offered := history.flatMap Command.events
    reservoir.seen = .ofNat offered.length ∧
    reservoir.saved.toNat = limit.clip offered.length ∧
    reservoir.rejected + reservoir.evicted = reservoir.seen - reservoir.saved ∧
    (offered.length < UInt64.size →
      reservoir.seen.toNat = offered.length ∧
      reservoir.dropped = reservoir.seen - reservoir.saved ∧
      reservoir.dropped.toNat = offered.length - limit.clip offered.length ∧
      reservoir.rejected.toNat + reservoir.evicted.toNat = reservoir.dropped.toNat) ∧
    ∀ (fresh : Reservoir π) (memory : Memory) (events : List (Event π)), fresh.Made →
      fresh.heap.limit = limit → events.Perm offered →
      (memory.Serves limit.toNat events.length →
        ∃ direct, fresh.fill memory events = .ok direct) ∧
      (∀ direct, fresh.fill memory events = .ok direct →
        (reservoir.events.map Event.key).Perm (direct.events.map Event.key)) ∧
      ∀ failure, fresh.fill memory events = .error failure →
        limit = .unbounded ∧
          ∃ slots, failure = .allocationFailed slots ∧ memory.reserves slots = false := by
  intro offered
  have hsharing : Sharing limit reservoir offered [] := by
    have hrun : Sharded limit (empty.run history).state.members offered :=
      sharded_empty.run hshares
    rw [reservoir?, Option.map_eq_some_iff] at htarget
    obtain ⟨member, hmember, rfl⟩ := htarget
    refine hrun.sharing_of_only hmember fun name hne => ?_
    exact Option.map_eq_none_iff.mp (honly name hne)
  obtain ⟨rejected, evicted, haccounts⟩ := hsharing.accounts
  have hsaved : reservoir.saved.toNat = limit.clip offered.length := by
    rw [haccounts.toNat_saved, ← hlimit]
    rw [← hlimit] at hsharing
    exact hsharing.selects.1
  refine ⟨haccounts.seen_eq, hsaved, ?_, ?_, ?_⟩
  · have hsum := haccounts.seen_eq_sum
    grind
  · intro hlt
    have hexact := haccounts.exact hlt
    have hseen : reservoir.seen.toNat = offered.length := hexact.seen_eq
    have hbalance := hexact.balance
    have hdropped : reservoir.dropped.toNat = reservoir.seen.toNat - reservoir.saved.toNat := by
      rw [hexact.dropped_eq, UInt64.toNat_sub_of_le _ _ hexact.saved_le]
    refine ⟨hseen, hexact.dropped_eq, ?_, ?_⟩
    · rw [hdropped, hseen, hsaved]
    · simp only at hbalance
      omega
  · intro fresh memory events hnew hfresh hevents
    have hstart : Sharing limit fresh [] [] := hnew.sharing (by rw [hfresh]; exact limit.le_refl)
    refine ⟨fun hserves => ?_, fun direct hfill => ?_, fun failure hfill => ?_⟩
    · rw [← hfresh] at hserves
      exact hnew.exists_fill hserves
    · obtain ⟨hdirect, hdirectLimit⟩ := hstart.fill hfill
      exact hsharing.keys_perm hdirect hlimit (hdirectLimit.trans hfresh) hevents.symm
    · rw [← hfresh]
      exact Reservoir.refused_of_fill hnew.accounts.sound hfill

/-- Two local reservoirs, one merged into the other and the other, after one more event, into the
target.  Both have more room than the target, and one of the events is offered twice. -/
theorem sharing_of_run_locals :
    let event (timestamp : UInt64) : Event Unit := ⟨.zero, timestamp, ()⟩
    let fresh : Reservoir Unit := .fresh Config.usualName ⟨#[], 2, .atMost 2, none⟩
    let wider : Reservoir Unit := .fresh Config.usualName ⟨#[], 3, .atMost 3, none⟩
    let history : List (Command Unit) :=
      [.placeLocal "target" fresh, .placeLocal "first" wider, .placeLocal "second" .unlimited,
        .add "second" (event 5), .add "first" (event 5), .add "target" (event 7),
        .merge "first" "second", .add "first" (event 6), .merge "target" "first"]
    (empty.run history).state.members.entries.map Prod.fst = ["target"] ∧
    ∃ reservoir direct : Reservoir Unit,
      (empty.run history).state.reservoir? "target" = some reservoir ∧
      fresh.fill .ample [event 6, event 7, event 5, event 5] = .ok direct ∧
      (reservoir.seen.toNat, reservoir.saved.toNat, reservoir.dropped.toNat) = (4, 2, 2) ∧
      (reservoir.events.map Event.key).Perm (direct.events.map Event.key) := by
  intro event fresh wider history
  have hfresh : Reservoir.ofCapacity .ample 2 = .ok fresh := rfl
  have hwider : Reservoir.ofCapacity .ample 3 = .ok wider := rfl
  have hshares : Along (Command.Shares (.atMost 2)) empty history := by
    simp only [history, Along, Command.Shares]
    exact ⟨⟨.ofCapacity hfresh, Limit.le_refl _, by decide +kernel⟩,
      ⟨.ofCapacity hwider, Limit.atMost_le_atMost.mpr (by decide), by decide +kernel⟩,
      ⟨.unlimited, trivial, by decide +kernel⟩,
      by decide +kernel, by decide +kernel, by decide +kernel, by decide +kernel,
      by decide +kernel, by decide +kernel, trivial⟩
  have hnames : (empty.run history).state.members.entries.map Prod.fst = ["target"] := by
    decide +kernel
  have honly : ∀ name, name ≠ "target" → (empty.run history).state.reservoir? name = none := by
    intro name hne
    rw [reservoir?, Option.map_eq_none_iff, Directory.find?, List.lookup_eq_none_iff]
    intro entry hentry
    have hname := List.mem_map_of_mem (f := Prod.fst) hentry
    rw [hnames, List.mem_singleton] at hname
    rw [hname]
    exact bne_iff_ne.mpr hne
  have hfound : ((empty.run history).state.reservoir? "target").map
      (fun reservoir => reservoir.heap.limit) = some (.atMost 2) := by
    decide +kernel
  obtain ⟨reservoir, hreservoir, hlimit⟩ := Option.map_eq_some_iff.mp hfound
  obtain ⟨-, hsaved, -, hexact, hkeys⟩ := sharing_of_run hshares hreservoir hlimit honly
  obtain ⟨hfills, hdirect, -⟩ := hkeys fresh .ample [event 6, event 7, event 5, event 5]
    (.ofCapacity hfresh) rfl (by decide)
  obtain ⟨direct, hfill⟩ := hfills (Memory.serves_ample (by decide) (by decide))
  obtain ⟨hseen, -, hdropped, -⟩ := hexact (by decide)
  refine ⟨hnames, reservoir, direct, hreservoir, hfill, ?_, hdirect direct hfill⟩
  rw [hseen, hsaved, hdropped]
  rfl

end Pool

end PrioritySampling
