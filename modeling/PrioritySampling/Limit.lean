import PrioritySampling.Error
/-!
# Retention limits

A heap keeps everything, or at most so many values.  Numbers from outside describe a limit
with 0 for none; 1 is refused, because a single value is least and greatest at once.
-/

namespace PrioritySampling

/-- How many values may be kept. -/
inductive Limit where
  /-- All of them. -/
  | unbounded
  /-- At most this many. -/
  | atMost (count : Nat)
  deriving DecidableEq, Repr, Inhabited

namespace Limit

/-- The limit that a count describes. -/
def ofNat : Nat → Except Error Limit
  | 0 => .ok unbounded
  | 1 => .error (.invalidBound 1)
  | count => .ok (atMost count)

/-- The limit that a signed number describes.  Negative ones describe none. -/
def ofInt : Int → Except Error Limit
  | .ofNat count => ofNat count
  | .negSucc n => .error (.invalidBound (.negSucc n))

/-- The number that describes the limit. -/
def toNat : Limit → Nat
  | unbounded => 0
  | atMost count => count

/-- There is a limit. -/
def isBounded : Limit → Bool
  | unbounded => false
  | atMost _ => true

/-- The limit in words. -/
def describe : Limit → String
  | unbounded => "unbounded"
  | atMost count => "at most " ++ toString count

/-- A described limit gives back its number. -/
theorem toNat_of_ofNat {count : Nat} {limit : Limit} (h : ofNat count = .ok limit) :
    limit.toNat = count := by
  match count, h with
  | 0, h => cases h; rfl
  | 1, h => cases h
  | count + 2, h => cases h; rfl

end Limit

end PrioritySampling
