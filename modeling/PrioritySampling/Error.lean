/-!
# What can go wrong

A reservoir can be asked for with parameters that describe none, its storage can fail to grow
while it is in use, and text can fail to describe its events.  Each cause keeps what its
message has to say.
-/

namespace PrioritySampling

/-- The causes of failure. -/
inductive Error where
  /-- The number describes no limit: it is negative, or it is 1, which leaves no distinction
  between the least and the greatest value. -/
  | invalidBound (bound : Int)
  /-- Some other parameter of a reservoir is of no use. -/
  | invalidParameters (detail : String)
  /-- Storage for this many values could not be had. -/
  | allocationFailed (slots : Nat)
  /-- Text could not be read or written. -/
  | serialization (detail : String)
  deriving DecidableEq, Repr

namespace Error

/-- The sentence that reports the failure. -/
def message : Error → String
  | invalidBound bound =>
    "Invalid bound: " ++ toString bound ++ ". Bound must be 0 (unbounded) or at least 2."
  | invalidParameters detail =>
    "Invalid reservoir parameters: " ++ detail ++ "."
  | allocationFailed slots =>
    "Allocation failed while growing heap storage to " ++ toString slots ++
      " slots; the pending value was discarded."
  | serialization detail =>
    "Serialization error: " ++ detail ++ "."

/-- The cause lies in the parameters that something was to be built from. -/
def isConstruction : Error → Bool
  | invalidBound _ | invalidParameters _ => true
  | allocationFailed _ | serialization _ => false

/-- The failure is a lack of storage. -/
def isAllocation : Error → Bool
  | allocationFailed _ => true
  | invalidBound _ | invalidParameters _ | serialization _ => false

/-- A reservoir needs a name that shows something. -/
def blankName : Error :=
  invalidParameters "reservoir name must not be blank"

/-- A chain of calls succeeds only if its first call does. -/
theorem exists_of_bind_eq_ok {ρ σ : Type} {first : Except Error ρ} {next : ρ → Except Error σ}
    {result : σ} (h : first >>= next = .ok result) :
    ∃ value, first = .ok value ∧ next value = .ok result := by
  cases first with
  | error failure => cases h
  | ok value => exact ⟨value, rfl, h⟩

end Error

end PrioritySampling
