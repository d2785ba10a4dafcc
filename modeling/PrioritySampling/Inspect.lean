import PrioritySampling.Reservoir.Basic
import PrioritySampling.Text.Quoted
/-!
# Descriptions

One-line descriptions of limits, heaps and reservoirs for someone who wants to look inside.
-/

namespace PrioritySampling

namespace Inspect

/-- A record with its name and its fields. -/
def record (name : String) (fields : List (String × String)) : String :=
  name ++ " \x7b " ++ ", ".intercalate (fields.map fun (key, text) => key ++ ": " ++ text) ++
    " \x7d"

/-- A list of items. -/
def list (items : List String) : String :=
  "[" ++ ", ".intercalate items ++ "]"

/-- A truth value. -/
def bool (b : Bool) : String :=
  if b then "true" else "false"

end Inspect

open Inspect

/-- The limit as it was made. -/
def Limit.inspect : Limit → String
  | unbounded => "Unbounded"
  | atMost count => "AtMost(" ++ toString count ++ ")"

/-- The heap with its values, each shown by `item`. -/
def MinMaxHeap.inspect {α : Type} {cmp : Comparator α} (item : α → String)
    (heap : MinMaxHeap α cmp) : String :=
  record "MinMaxHeap"
    [("len", toString heap.size), ("capacity", toString heap.capacity),
      ("limit", heap.limit.inspect), ("has_discard", bool heap.hook.isSome),
      ("data", list (heap.toList.map item))]

/-- The reservoir with its counts. -/
def Reservoir.inspect {π : Type} (reservoir : Reservoir π) : String :=
  record "EventReservoir"
    [("name", Text.quoted reservoir.name), ("capacity", toString reservoir.capacity),
      ("seen", toString reservoir.seen.toNat), ("saved", toString reservoir.heap.size)]

/-- A reservoir that is shared, unless it is in use: then nothing of it can be seen. -/
def Reservoir.inspectShared {π : Type} (inUse : Bool) (reservoir : Reservoir π) : String :=
  record "SharedReservoir"
    [("inner", if inUse then Text.quoted "<locked>" else reservoir.inspect)]

end PrioritySampling
