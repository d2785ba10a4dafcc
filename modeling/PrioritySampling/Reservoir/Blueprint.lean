import PrioritySampling.Reservoir.Basic
/-!
# Blueprints of reservoirs

A reservoir can be described step by step before it is built.  Its capacity is the one thing
that has to be said, and it is said once: the stage of a blueprint tells whether it has been,
and only a blueprint with a capacity can be built.
-/

namespace PrioritySampling

namespace Reservoir

/-- How far a blueprint has come. -/
inductive Stage where
  /-- The capacity is still open. -/
  | started
  /-- The capacity has been set. -/
  | sized

/-- What a reservoir is to be like. -/
structure Blueprint (stage : Stage) where
  config : Config
  hook : Option Hook

namespace Blueprint

variable {stage : Stage}

/-- The usual name and no hook.  The capacity stands at 0 until it is set. -/
def start : Blueprint .started :=
  ⟨⟨0, Config.usualName⟩, none⟩

/-- Sets the greatest number of events to hold, 0 for no limit. -/
def ofCapacity (capacity : Int) (plan : Blueprint .started) : Blueprint .sized :=
  ⟨{ plan.config with capacity := capacity }, plan.hook⟩

/-- Holds every event. -/
def unlimited (plan : Blueprint .started) : Blueprint .sized :=
  plan.ofCapacity 0

/-- Sets the name. -/
def named (name : String) (plan : Blueprint stage) : Blueprint stage :=
  { plan with config := { plan.config with name := name } }

/-- Sets the hook for discarded events. -/
def discardingTo (hook : Hook) (plan : Blueprint stage) : Blueprint stage :=
  { plan with hook := some hook }

/-- Builds the reservoir, once its name and then its capacity have been checked. -/
def build {π : Type} (memory : Memory) (plan : Blueprint .sized) : Except Error (Reservoir π) := do
  Config.checkName plan.config.name
  let limit ← Limit.ofInt plan.config.capacity
  let reservoir ← withLimit memory limit plan.config.name
  match plan.hook with
  | some hook => return reservoir.setHook hook
  | none => return reservoir

end Blueprint

end Reservoir

end PrioritySampling
