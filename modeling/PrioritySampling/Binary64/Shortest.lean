import PrioritySampling.Binary64.Decimal
/-!
# Shortest decimal notation

A finite number is written with the fewest digits that round to it.  For one digit, two digits
and so on, the two decimal numbers with that many digits on either side of the number are tried,
and the nearer one is taken if both round to it.  Whether one does is tested by rounding it.
Seventeen digits always suffice; should none of these do, all digits of the number are written.
-/

namespace PrioritySampling

namespace Binary64

/-- The decimal number rounds to the absolute value of `x`. -/
def roundsFrom (x : Binary64) (d : Decimal) : Bool :=
  d.toBinary64 x.negative == some x

/-- The exponent of the power of ten of the leading digit of `num / den`, which is not zero. -/
def leadingPlace (num den : Nat) : Int :=
  if den ≤ num then Digits.count (num / den) - 1
  else -(Digits.count ((den - 1) / num) : Int)

/-- The decimal number with its last digit at the power of ten `place` that is nearest to `x`
among the two around it, if it rounds to `x`; otherwise the other one, if that does. -/
def neighbour? (x : Binary64) (place : Int) : Option Decimal :=
  let num := x.numerator * Nat.pow 10 (-place).toNat
  let den := x.denominator * Nat.pow 10 place.toNat
  let whole := num / den
  let below := Decimal.trim ⟨whole, place⟩
  let above := Decimal.trim ⟨whole + 1, place⟩
  match x.roundsFrom below, x.roundsFrom above with
  | true, true =>
    if nearest num den = whole then some below else some above
  | true, false => some below
  | false, true => some above
  | false, false => none

/-- The number with all its digits. -/
def exactDecimal (x : Binary64) : Decimal :=
  if 0 ≤ x.scale then ⟨x.numerator, 0⟩
  else ⟨x.significand * Nat.pow 5 (-x.scale).toNat, x.scale⟩

/-- The shortest decimal number that rounds to the absolute value of a finite number. -/
def shortest (x : Binary64) : Decimal :=
  if x.magnitude = 0 then ⟨0, 0⟩
  else
    let lead := leadingPlace x.numerator x.denominator
    ((List.range 17).findSome? fun (k : Nat) => x.neighbour? (lead - k)).getD x.exactDecimal

end Binary64

end PrioritySampling
