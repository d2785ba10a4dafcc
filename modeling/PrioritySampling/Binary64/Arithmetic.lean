import PrioritySampling.Binary64.Rounding
/-!
# Products and quotients

Finite numbers are multiplied and divided as the fractions that they are, and the result is
rounded once.
-/

namespace PrioritySampling

namespace Binary64

/-- The product of two finite numbers. -/
def product (x y : Binary64) : Binary64 :=
  rounded (x.negative != y.negative) (x.numerator * y.numerator) (x.denominator * y.denominator)

/-- The quotient of two finite numbers, the second of which is not zero. -/
def quotient (x y : Binary64) : Binary64 :=
  rounded (x.negative != y.negative) (x.numerator * y.denominator) (x.denominator * y.numerator)

/-- The number nearest to a natural number. -/
def ofNat (n : Nat) : Binary64 :=
  rounded false n 1

/-- The quotient of two counts, each of them rounded before the division. -/
def ratio (part whole : UInt64) : Binary64 :=
  (ofNat part.toNat).quotient (ofNat whole.toNat)

end Binary64

end PrioritySampling
