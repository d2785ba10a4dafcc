import PrioritySampling.Binary64.Rounding
import PrioritySampling.Decimal.Digits
/-!
# Rounding decimal numbers

A decimal number is a significand times a power of ten, and there is a floating-point number
nearest to it.  Numbers far out of range are told by the place of their leading digit alone, so
that no power of ten is taken that could not matter.
-/

namespace PrioritySampling

/-- A decimal number without a sign, `significand * 10 ^ exponent`. -/
structure Decimal where
  significand : Nat
  exponent : Int
  deriving DecidableEq, Repr

namespace Decimal

/-- The numerator of the number. -/
def numerator (d : Decimal) : Nat :=
  d.significand * Nat.pow 10 d.exponent.toNat

/-- The denominator of the number. -/
def denominator (d : Decimal) : Nat :=
  Nat.pow 10 (-d.exponent).toNat

/-- The number lies below the power of ten with this exponent, and not below the one before. -/
def order (d : Decimal) : Int :=
  Digits.count d.significand + d.exponent

/-- From this order on, every number is out of range: the largest finite one has order 309. -/
def orderTooLarge : Int := 310

/-- Up to this order, every number rounds to zero: half the smallest positive one has
order -323. -/
def orderTooSmall : Int := -324

/-- The nearest floating-point number with the given sign, if the number is not out of range. -/
def toBinary64 (negative : Bool) (d : Decimal) : Option Binary64 :=
  if d.significand = 0 then some (.ofMagnitude negative 0)
  else if orderTooLarge ≤ d.order then none
  else if d.order ≤ orderTooSmall then some (.ofMagnitude negative 0)
  else Binary64.ofQuotient negative d.numerator d.denominator

/-- The number without trailing zeros in the significand. -/
def trim (d : Decimal) : Decimal :=
  if h : d.significand ≠ 0 ∧ d.significand % 10 = 0 then
    trim ⟨d.significand / 10, d.exponent + 1⟩
  else d
termination_by d.significand
decreasing_by
  omega

end Decimal

end PrioritySampling
