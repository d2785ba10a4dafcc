import PrioritySampling.Limit
import PrioritySampling.Text.WhiteSpace
/-!
# Configuration of a reservoir

What a reservoir is configured with: a name that must show something, and a capacity, which is
signed because it may come from a file, where a negative number is a mistake to report.  Both
have a usual value.  Of two mistakes the name is reported.
-/

namespace PrioritySampling

/-- The parameters of a reservoir. -/
structure Config where
  /-- The greatest number of events to hold, 0 for no limit. -/
  capacity : Int
  name : String
  deriving DecidableEq, Repr

namespace Config

/-- The usual capacity. -/
def usualCapacity : Int := 10000

/-- The usual name. -/
def usualName : String := "events"

/-- The usual parameters. -/
def usual : Config :=
  ⟨usualCapacity, usualName⟩

/-- A name has to show something. -/
def checkName (name : String) : Except Error Unit :=
  if Text.isBlank name then .error .blankName else .ok ()

/-- The limit that the parameters describe, unless the name is blank. -/
def limit (config : Config) : Except Error Limit := do
  checkName config.name
  Limit.ofInt config.capacity

theorem limit_eq_ite (config : Config) :
    config.limit =
      if Text.isBlank config.name then .error .blankName else Limit.ofInt config.capacity := by
  rw [limit, checkName]
  cases Text.isBlank config.name <;> rfl

end Config

end PrioritySampling
