import PrioritySampling.Binary64.Arithmetic
import PrioritySampling.Binary64.Decimal
/-!
# Scaling by powers of ten

A decimal number can be evaluated in the arithmetic of floating-point numbers: its significand
is rounded, and the result is multiplied or divided by a power of ten, which has been rounded
too.  A significand below `2 ^ 53` and a power of ten up to the 22nd are exact, and then only
the last step rounds and the result is the nearest number.  Otherwise several roundings add up,
and the result may be a neighbour of the nearest number.

There is no power of ten beyond `10 ^ 308`.  A larger one in the denominator is divided by in
steps, and what is left of a number after three of them is zero.
-/

namespace PrioritySampling

namespace Binary64

/-- The exponent of the greatest power of ten that is a finite number. -/
def greatestPower : Nat := 308

/-- The number nearest to a power of ten. -/
def powerOfTen (exponent : Nat) : Binary64 :=
  ofNat (Nat.pow 10 exponent)

/-- A finite number multiplied by a power of ten, if the result is not out of range. -/
def scaleUp (exponent : Nat) (x : Binary64) : Option Binary64 :=
  if x.magnitude = 0 then some x
  else if exponent ≤ greatestPower then
    let scaled := x.product (powerOfTen exponent)
    if scaled.isFinite then some scaled else none
  else none

/-- A finite number divided by a power of ten. -/
def scaleDown (exponent : Nat) (x : Binary64) : Binary64 :=
  if x.magnitude = 0 then x
  else if exponent ≤ greatestPower then x.quotient (powerOfTen exponent)
  else (x.quotient (powerOfTen greatestPower)).scaleDown (exponent - greatestPower)
termination_by exponent
decreasing_by
  simp only [greatestPower] at *
  omega

end Binary64

namespace Decimal

/-- The value of a decimal number with the given sign, by scaling its rounded significand, if
it is not out of range. -/
def scaled (negative : Bool) (d : Decimal) : Option Binary64 :=
  let significand := Binary64.rounded negative d.significand 1
  if 0 ≤ d.exponent then significand.scaleUp d.exponent.toNat
  else some (significand.scaleDown (-d.exponent).toNat)

end Decimal

end PrioritySampling
