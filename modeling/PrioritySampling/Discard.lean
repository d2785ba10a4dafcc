/-!
# Discards

A value that leaves a heap without being handed back is discarded: it goes to the discard hook
if there is one, and is lost otherwise.  What the hook does with it is its owner's affair, so a
hook is known here by its tag alone, and an operation reports its discards in the order in
which they happened.
-/

namespace PrioritySampling

/-- The tag of a discard hook. -/
abbrev Hook := String

/-- One discarded value. -/
structure Discard (α : Type) where
  /-- The hook that was installed at that moment, if any. -/
  hook : Option Hook
  value : α
  deriving DecidableEq, Repr

/-- What an operation brings about: its answer, the state after it, and the values that were
discarded on the way. -/
structure Transition (σ α ρ : Type) where
  answer : ρ
  state : σ
  discards : List (Discard α)

namespace Transition

variable {σ τ α ρ : Type}

/-- An operation that discards nothing. -/
def quiet (answer : ρ) (state : σ) : Transition σ α ρ :=
  ⟨answer, state, []⟩

/-- The same with some discards before it. -/
def after (earlier : List (Discard α)) (t : Transition σ α ρ) : Transition σ α ρ :=
  { t with discards := earlier ++ t.discards }

/-- The same seen as a change of a larger state. -/
def mapState (f : σ → τ) (t : Transition σ α ρ) : Transition τ α ρ :=
  ⟨t.answer, f t.state, t.discards⟩

end Transition

end PrioritySampling
