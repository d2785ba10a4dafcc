/-!
# Floating-point numbers of 64 bits

A number is its bit pattern: a sign, then a magnitude of 63 bits.  Magnitudes below that of
infinity are finite numbers, which they order as the numbers are ordered; magnitudes above it
are not numbers (NaN).  A NaN is quiet if the highest bit of its fraction is set.

`orderKey` puts all patterns in a row: below the numbers come the negative NaNs, above them the
positive ones.  Priorities are compared by their place in this row after they have been
settled, which takes the sign off zero and quiets a NaN, so that the two zeros are one
priority.
-/

namespace PrioritySampling

/-- A floating-point number, given by its bit pattern. -/
structure Binary64 where
  bits : UInt64
  deriving DecidableEq, Repr, Inhabited

namespace Binary64

/-- The magnitude of infinity. -/
def infinity : Nat := 0x7ff0000000000000

/-- The bit that makes a NaN quiet. -/
def quietBit : Nat := 0x0008000000000000

/-- The bit of the sign. -/
def signBit : Nat := 0x8000000000000000

/-- The sign bit is set. -/
def negative (x : Binary64) : Bool :=
  signBit ≤ x.bits.toNat

/-- The pattern without its sign. -/
def magnitude (x : Binary64) : Nat :=
  x.bits.toNat % signBit

/-- The number with the given sign and magnitude. -/
def ofMagnitude (negative : Bool) (magnitude : Nat) : Binary64 :=
  ⟨UInt64.ofNat ((if negative then signBit else 0) + magnitude)⟩

/-- The pattern is no number. -/
def isNaN (x : Binary64) : Bool :=
  infinity < x.magnitude

/-- The pattern is a finite number. -/
def isFinite (x : Binary64) : Bool :=
  x.magnitude < infinity

/-- Zero without a sign. -/
def zero : Binary64 := ⟨0⟩

/-- Equality of numbers: the zeros are equal, and no NaN equals anything. -/
def sameNumber (x y : Binary64) : Bool :=
  !x.isNaN && !y.isNaN && (x == y || (x.magnitude == 0 && y.magnitude == 0))

/-- The pattern with the sign taken off zero and the quiet bit of a NaN set, as after the
addition of zero. -/
def settle (x : Binary64) : Binary64 :=
  if x.isNaN then
    if x.magnitude / quietBit % 2 = 0 then ofMagnitude x.negative (x.magnitude + quietBit) else x
  else if x.magnitude = 0 then zero
  else x

/-- The place of a pattern among all patterns: those with a sign count downwards. -/
def orderKey (x : Binary64) : Int :=
  if x.negative then -1 - (x.magnitude : Int) else x.magnitude

/-- The place of a pattern among all priorities. -/
def priorityKey (x : Binary64) : Int :=
  x.settle.orderKey

end Binary64

end PrioritySampling
