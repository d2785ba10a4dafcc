import PrioritySampling.Binary64.Basic
/-!
# Rounding to the nearest number

A finite number other than zero is a whole significand below `2 ^ 53` times a power of two
that is at least `2 ^ (-1074)`.  A quotient is rounded by scaling it so that its whole part
has 53 bits, or fewer at the smallest power, and taking the nearest integer; of two equally
near ones, the even one.  As magnitudes are ordered like numbers, a significand that is rounded
up to `2 ^ 53` gives the next magnitude by itself.
-/

namespace PrioritySampling

/-- The integer nearest to `num / den`, the even one of two. -/
def nearest (num den : Nat) : Nat :=
  let whole := num / den
  let double := 2 * (num % den)
  if double < den ∨ (double = den ∧ whole % 2 = 0) then whole else whole + 1

/-- The whole part of the binary logarithm of `num / den`. -/
def quotientLog2 (num den : Nat) : Int :=
  let guess : Int := (num.log2 : Int) - (den.log2 : Int)
  if Nat.pow 2 guess.toNat * den ≤ num * Nat.pow 2 (-guess).toNat then guess else guess - 1

namespace Binary64

/-- The exponent of the smallest power of two in use. -/
def leastScale : Int := -1074

/-- The leading bit of a significand of full length, which is not stored. -/
def leadingBit : Nat := 0x0010000000000000

/-- The magnitude nearest to `num / den`.  It is not bounded: quotients too large for a finite
number give magnitudes from that of infinity on. -/
def nearestMagnitude (num den : Nat) : Nat :=
  if num = 0 then 0
  else
    let scale := max (quotientLog2 num den - 52) leastScale
    let significand := nearest (num * Nat.pow 2 (-scale).toNat) (den * Nat.pow 2 scale.toNat)
    (scale - leastScale).toNat * leadingBit + significand

/-- The finite number nearest to `num / den`, with the given sign, if the quotient is not out
of range. -/
def ofQuotient (negative : Bool) (num den : Nat) : Option Binary64 :=
  let magnitude := nearestMagnitude num den
  if magnitude < infinity then some (ofMagnitude negative magnitude) else none

/-- The number nearest to `num / den`, with the given sign.  A quotient that is out of range
gives infinity. -/
def rounded (negative : Bool) (num den : Nat) : Binary64 :=
  ofMagnitude negative (min (nearestMagnitude num den) infinity)

/-- The significand of a finite number. -/
def significand (x : Binary64) : Nat :=
  if x.magnitude / leadingBit = 0 then x.magnitude else leadingBit + x.magnitude % leadingBit

/-- The exponent of the power of two that the significand of a finite number counts. -/
def scale (x : Binary64) : Int :=
  if x.magnitude / leadingBit = 0 then leastScale
  else ((x.magnitude / leadingBit : Nat) : Int) - 1 + leastScale

/-- The numerator of the absolute value of a finite number. -/
def numerator (x : Binary64) : Nat :=
  x.significand * Nat.pow 2 x.scale.toNat

/-- The denominator of the absolute value of a finite number. -/
def denominator (x : Binary64) : Nat :=
  Nat.pow 2 (-x.scale).toNat

end Binary64

end PrioritySampling
