import PrioritySampling.Export.Envelope
import PrioritySampling.Proofs.Renewal
import PrioritySampling.Proofs.Replay
import PrioritySampling.Proofs.Sorting
/-!
# What a harvest will yield

The envelope of a reservoir shows what a harvest would yield, before there is one.  The two come
about in different ways: the envelope holds the stored events sorted as a list, by a stable sort
that does not know of the heap, and a harvest pops the greatest event until none is left.  Both
lists are sorted from the side of greatest values, and both hold the events that are stored.  So
they are the same up to events of equal rank, and the same if there are none.

Events of equal rank may come in different orders.  The sort keeps the order in which they are
stored, and nothing ties the pops to that.
-/

namespace PrioritySampling

open Json (Payload)

variable {π : Type}

namespace Envelope

/-! ## Equal but for ties -/

/-- Two envelopes hold the same account and the same events, in orders that may differ among
events of equal rank only. -/
structure Matches (envelope other : Envelope π) : Prop where
  stats_eq : envelope.stats = other.stats
  perm : envelope.events.Perm other.events
  descending : envelope.events.Pairwise fun earlier later =>
    Comparator.less Event.rank earlier later = false
  other_descending : other.events.Pairwise fun earlier later =>
    Comparator.less Event.rank earlier later = false
  rank_eq : List.Forall₂ (fun a b => Event.rank a b = .eq) envelope.events other.events

/-- Without events of equal rank nothing may differ. -/
theorem Matches.eq {envelope other : Envelope π} (h : envelope.Matches other)
    (hdistinct : envelope.events.Pairwise fun a b => Event.rank a b ≠ .eq) : envelope = other := by
  have hsorted : envelope.events.Pairwise (Side.high.leads Event.rank) := h.descending
  have hevents := Side.eq_of_perm h.perm hsorted h.other_descending hdistinct
  obtain ⟨stats, events⟩ := envelope
  obtain ⟨stats', events'⟩ := other
  exact (mk.injEq stats events stats' events').mpr ⟨h.stats_eq, hevents⟩

end Envelope

namespace Reservoir

variable {reservoir : Reservoir π}

/-! ## One reservoir -/

theorem capture_matches_harvest (hordered : reservoir.heap.Ordered) :
    Envelope.Matches (.capture reservoir) (.ofHarvest reservoir.harvest.1) := by
  have hsorted : reservoir.sorted.Pairwise (Side.high.leads Event.rank) :=
    Side.pairwise_mergeSort reservoir.events
  have hdrained : reservoir.harvest.1.events.Pairwise (Side.high.leads Event.rank) :=
    hordered.pairwise_drain .high
  have hperm : reservoir.sorted.Perm reservoir.harvest.1.events :=
    (List.mergeSort_perm reservoir.events _).trans (perm_harvest reservoir).1.symm
  exact
    { stats_eq := rfl
      perm := hperm
      descending := hsorted
      other_descending := hdrained
      rank_eq := Side.forall₂_of_perm hperm hsorted hdrained }

theorem pairwise_sorted_iff (reservoir : Reservoir π) :
    (reservoir.sorted.Pairwise fun a b => Event.rank a b ≠ .eq) ↔
      reservoir.events.Pairwise fun a b => Event.rank a b ≠ .eq :=
  (List.mergeSort_perm reservoir.events _).pairwise_iff
    fun hne heq => hne (Std.OrientedCmp.eq_comm.mp heq)

end Reservoir

namespace Pool

/-! ## Every history -/

/-- Takes the envelope of the reservoir of a name. -/
def capture (name : String) (pool : Pool π) :
    Transition (Pool π) (Event π) (Option (Envelope π)) :=
  .quiet ((pool.reservoir? name).map .capture) pool

/-- The envelope of a reservoir can be had at any time and leaves everything as it was.  A harvest
that follows yields the same statistics and the same events, the highest first, in an order that
differs among events of equal rank at most.  If no two events are of equal rank it yields the same
envelope, and the same text. -/
theorem preview_of_run {history : List (Command π)} {name : String} {reservoir : Reservoir π}
    (hnew : ∀ command ∈ history, command.PlacesNew)
    (hreached : (empty.run history).state.reservoir? name = some reservoir) :
    let pool := (empty.run history).state
    let shot := pool.capture name
    let step := shot.state.apply (.harvest name)
    let envelope := Envelope.capture reservoir
    let yielded := Envelope.ofHarvest reservoir.harvest.1
    shot.state = pool ∧ shot.discards = [] ∧ shot.answer = some envelope ∧
    step.answer = .harvested reservoir.harvest.1 ∧ envelope.Matches yielded ∧
    ((reservoir.events.Pairwise fun a b => Event.rank a b ≠ .eq) →
      envelope = yielded ∧ ∀ [Payload π], envelope.toText = yielded.toText) := by
  intro pool shot step envelope yielded
  have hanswer : shot.answer = some envelope := congrArg (Option.map Envelope.capture) hreached
  rw [reservoir?, Option.map_eq_some_iff] at hreached
  obtain ⟨member, hmember, rfl⟩ := hreached
  have hordered := allOrdered_empty.run orderly_empty hnew name member hmember
  have hharvested : step.answer = .harvested member.reservoir.harvest.1 :=
    congrArg Transition.answer (apply_harvest hmember)
  have hmatches : envelope.Matches yielded := Reservoir.capture_matches_harvest hordered
  refine ⟨rfl, rfl, hanswer, hharvested, hmatches, fun hdistinct => ?_⟩
  have heq := hmatches.eq (member.reservoir.pairwise_sorted_iff.mpr hdistinct)
  exact ⟨heq, congrArg Envelope.toText heq⟩

theorem preview_of_run_ties :
    ∃ (pool : Pool String) (tied distinct : Reservoir String),
      (pool.capture "tied").answer = some (.capture tied) ∧
      (pool.capture "distinct").answer = some (.capture distinct) ∧
      tied.sorted.map Event.payload = ["a", "b", "c", "d"] ∧
      tied.harvest.1.events.map Event.payload = ["b", "d", "c", "a"] ∧
      Envelope.Matches (.capture tied) (.ofHarvest tied.harvest.1) ∧
      distinct.harvest.1.events.map Event.payload = ["f", "g", "e"] ∧
      (Envelope.capture distinct).toText = (Envelope.ofHarvest distinct.harvest.1).toText := by
  let negativeZero : Binary64 := ⟨0x8000000000000000⟩
  let one : Binary64 := ⟨0x3ff0000000000000⟩
  let ties : List (Event String) :=
    [⟨.zero, 1, "a"⟩, ⟨negativeZero, 1, "b"⟩, ⟨.zero, 1, "c"⟩, ⟨negativeZero, 1, "d"⟩]
  let others : List (Event String) := [⟨.zero, 1, "e"⟩, ⟨one, 1, "f"⟩, ⟨negativeZero, 2, "g"⟩]
  let history : List (Command String) :=
    .placeLocal "tied" .unlimited :: .placeShared "distinct" .unlimited ::
      (ties.map (.add "tied") ++ others.map (.add "distinct"))
  have hnew : ∀ command ∈ history, command.PlacesNew := by
    simp only [history, ties, others, List.map_cons, List.map_nil, List.cons_append,
      List.nil_append, List.forall_mem_cons, Command.PlacesNew]
    simp [Reservoir.Made.unlimited]
  have htied : ((empty.run history).state.reservoir? "tied").map (fun reservoir =>
      (reservoir.events, reservoir.harvest.1.events.map Event.payload)) =
        some (ties, ["b", "d", "c", "a"]) := by
    decide +kernel
  have hdistinct : ((empty.run history).state.reservoir? "distinct").map (fun reservoir =>
      (reservoir.events, reservoir.harvest.1.events.map Event.payload)) =
        some (others, ["f", "g", "e"]) := by
    decide +kernel
  have hsorted : ties.Pairwise fun a b => (Event.rank b a).isLE = true := by
    decide +kernel
  have hdiffer : others.Pairwise fun a b => Event.rank a b ≠ .eq := by
    decide +kernel
  have hpayloads : ties.map Event.payload = ["a", "b", "c", "d"] := rfl
  clear_value history ties others
  obtain ⟨tied, htied, hties⟩ := Option.map_eq_some_iff.mp htied
  obtain ⟨distinct, hdistinct, hothers⟩ := Option.map_eq_some_iff.mp hdistinct
  rw [Prod.mk.injEq] at hties hothers
  obtain ⟨-, -, hanswer, -, hmatches, -⟩ := preview_of_run hnew htied
  obtain ⟨-, -, hanswer', -, -, hsame⟩ := preview_of_run hnew hdistinct
  rw [hothers.1] at hsame
  refine ⟨_, tied, distinct, hanswer, hanswer', ?_, hties.2, hmatches, hothers.2,
    (hsame hdiffer).2⟩
  rw [Reservoir.sorted, hties.1, List.mergeSort_of_pairwise hsorted, hpayloads]

end Pool

end PrioritySampling
