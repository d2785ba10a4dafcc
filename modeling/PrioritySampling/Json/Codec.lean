import PrioritySampling.Json.Parse
/-!
# Data as JSON

How simple data and records are written as JSON values and read back.  A floating-point number
that is not finite has no notation and is written as null, which does not read as a number.

A record is written as an object with its fields in order.  It is read from an object with its
fields in any order, in which unknown keys do not matter but a known key may not come twice, or
from an array of its fields in order.
-/

namespace PrioritySampling

namespace Json

namespace Value

/-! ## Simple data -/

def ofString (text : String) : Value :=
  string (some text)

def toString? : Value → Option String
  | string text => text
  | _ => none

def toBool? : Value → Option Bool
  | bool b => some b
  | _ => none

def ofInt (i : Int) : Value :=
  number (.ofInt i)

def toInt? : Value → Option Int
  | number n => n.toInt?
  | _ => none

/-- A natural number below a bound. -/
def toNatBelow? (bound : Nat) (value : Value) : Option Nat :=
  match value.toInt? with
  | some (.ofNat n) => if n < bound then some n else none
  | _ => none

def ofUInt64 (n : UInt64) : Value :=
  ofInt n.toNat

def toUInt64? (value : Value) : Option UInt64 :=
  (value.toNatBelow? UInt64.size).map UInt64.ofNat

/-- An integer of 64 bits with a sign. -/
def toWord? (value : Value) : Option Int :=
  match value.toInt? with
  | some i => if -Int.pow 2 63 ≤ i ∧ i < Int.pow 2 63 then some i else none
  | none => none

def ofBinary64 (x : Binary64) : Value :=
  if x.isFinite then number (.ofBinary64 x) else null

def toBinary64? : Value → Option Binary64
  | number n => n.toBinary64?
  | _ => none

/-- Items that are all of one kind. -/
def toList? {α : Type} (item? : Value → Option α) : Value → Option (List α)
  | array items => items.mapM item?
  | _ => none

/-! ## Records -/

/-- An object with the given fields. -/
def record (fields : List (String × Value)) : Value :=
  object (fields.map fun (key, value) => (some key, value))

/-- The one value that the members have under a key, if any; nothing at all if there are
several. -/
def member? (members : List (String × Value)) (key : String) : Option (Option Value) :=
  match members.filter (·.1 == key) with
  | [] => some none
  | [(_, value)] => some (some value)
  | _ => none

/-- The values of the fields with the given keys, in that order; fields that an object lacks
have none.  An array must give every field, unless it `mayEnd` before the last. -/
def fields? (keys : List String) (mayEnd : Bool) : Value → Option (List (Option Value))
  | object members => do
    let members ← members.mapM fun (key, value) => key.map (·, value)
    keys.mapM (member? members)
  | array items =>
    if items.length = keys.length ∨ (mayEnd ∧ items.length < keys.length) then
      some (items.map some ++ List.replicate (keys.length - items.length) none)
    else none
  | _ => none

end Value

/-! ## Payloads -/

/-- Data that an event can carry through JSON. -/
class Payload (π : Type) where
  encode : π → Value
  decode? : Value → Option π
  /-- What an object without the field stands for, if it may lack it. -/
  absent : Option π

instance : Payload String := ⟨.ofString, Value.toString?, none⟩

/-- A text that may be missing: null stands for none, and so does the lack of the field. -/
instance : Payload (Option String) where
  encode
    | some text => .ofString text
    | none => .null
  decode?
    | .null => some none
    | value => value.toString?.map some
  absent := some none

instance : Payload UInt8 where
  encode n := .ofInt n.toNat
  decode? value := (value.toNatBelow? UInt8.size).map UInt8.ofNat
  absent := none

instance : Payload Int64 where
  encode n := .ofInt n.toInt
  decode? value := value.toWord?.map Int64.ofInt
  absent := none

instance : Payload Binary64 := ⟨.ofBinary64, Value.toBinary64?, none⟩

instance : Payload Bool := ⟨.bool, Value.toBool?, none⟩

instance : Payload Unit where
  encode _ := .null
  decode?
    | .null => some ()
    | _ => none
  absent := none

/-- Bytes, as an array of numbers. -/
instance : Payload (List UInt8) where
  encode bytes := .array (bytes.map Payload.encode)
  decode? := Value.toList? Payload.decode?
  absent := none

end Json

end PrioritySampling
