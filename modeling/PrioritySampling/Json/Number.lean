import PrioritySampling.Binary64.Scaling
import PrioritySampling.Binary64.Shortest
/-!
# Numbers in JSON

A number is kept as it is written: a sign, a whole part without leading zeros, the digits after
the point, and an exponent.  Whether it stands for an integer is a matter of its form, not of
its value: a fraction or an exponent makes it none, and neither is a zero with a sign.

A floating-point number is read by scaling a significand that has room for 64 bits.  Digits
without room are left out, and the value is that of the digits kept, up to the roundings of the
scaling.  So a number that was written in its shortest notation may read as a neighbour.
-/

namespace PrioritySampling

namespace Json

/-- A number as it is written. -/
structure Number where
  negative : Bool
  /-- The digits before the point. -/
  whole : Nat
  /-- The digits after the point.  There is no point if there are none. -/
  fraction : List Digit
  exponent : Option Int
  deriving DecidableEq, Repr

namespace Number

/-! ## Values -/

/-- The integer that the number is written as. -/
def toInt? (n : Number) : Option Int :=
  match n.fraction, n.exponent with
  | [], none =>
    if n.negative then
      if n.whole = 0 then none else some (-(n.whole : Int))
    else some n.whole
  | _, _ => none

/-- The absolute value of the number. -/
def toDecimal (n : Number) : Decimal :=
  ⟨n.whole * Nat.pow 10 n.fraction.length + Digits.toNat n.fraction,
    n.exponent.getD 0 - n.fraction.length⟩

/-- The nearest floating-point number, if the number is not out of range. -/
def nearest? (n : Number) : Option Binary64 :=
  n.toDecimal.toBinary64 n.negative

/-- A significand lies below this number. -/
def significandBound : Nat := UInt64.size

/-- Appends digits to a significand up to the first that finds no room.  The answer has the
significand and the digits that are left. -/
def fill (significand : Nat) : List Digit → Nat × List Digit
  | [] => (significand, [])
  | digit :: digits =>
    if 10 * significand + digit.val < significandBound then
      fill (10 * significand + digit.val) digits
    else (significand, digit :: digits)

/-- The absolute value of the number as far as its digits find room.  A digit before the point
that is left out counts in the exponent.  The digits after the point find room for themselves,
whether or not some before it were left out. -/
def abridged (n : Number) : Decimal :=
  let (head, wholeLeft) := fill 0 (Digits.ofNat n.whole)
  let (significand, fractionLeft) := fill head n.fraction
  ⟨significand, n.exponent.getD 0 + wholeLeft.length + fractionLeft.length - n.fraction.length⟩

/-- The floating-point number that the number reads as, if it is not out of range. -/
def toBinary64? (n : Number) : Option Binary64 :=
  n.abridged.scaled n.negative

/-- A significand that is filled takes up the digits in front of those left. -/
theorem fill_eq_append (significand : Nat) (digits : List Digit) :
    ∃ taken : List Digit, digits = taken ++ (fill significand digits).2 ∧
      (fill significand digits).1 =
        taken.foldl (fun (n : Nat) (digit : Digit) => 10 * n + digit.val) significand := by
  induction digits generalizing significand with
  | nil => exact ⟨[], rfl, rfl⟩
  | cons digit digits ih =>
    by_cases h : 10 * significand + digit.val < significandBound
    · obtain ⟨taken, hdigits, hvalue⟩ := ih (10 * significand + digit.val)
      refine ⟨digit :: taken, ?_, ?_⟩
      · simp [fill, h, ← hdigits]
      · simp [fill, h, hvalue]
    · exact ⟨[], by simp [fill, h], by simp [fill, h]⟩

/-- A filled significand keeps to its bound. -/
theorem fill_lt {significand : Nat} (h : significand < significandBound) (digits : List Digit) :
    (fill significand digits).1 < significandBound := by
  induction digits generalizing significand with
  | nil => exact h
  | cons digit digits ih =>
    by_cases hroom : 10 * significand + digit.val < significandBound
    · simpa [fill, hroom] using ih hroom
    · simpa [fill, hroom] using h

/-- An integer. -/
def ofInt (i : Int) : Number :=
  ⟨i < 0, i.natAbs, [], none⟩

/-! ## Layout of floating-point numbers -/

/-- The least exponent of a leading digit that is written without an exponent. -/
def leastPositional : Int := -5

/-- The greatest exponent of a leading digit that is written without an exponent. -/
def greatestPositional : Int := 15

/-- Lays out a decimal number.  Written positionally it has a digit on either side of the
point; written with an exponent it has one digit before the point. -/
def layout (negative : Bool) (d : Decimal) : Number :=
  let digits := Digits.ofNat d.significand
  let lead : Int := digits.length - 1 + d.exponent
  if leastPositional ≤ lead ∧ lead ≤ greatestPositional then
    if lead < 0 then
      ⟨negative, 0, List.replicate (-lead - 1).toNat 0 ++ digits, none⟩
    else if 0 ≤ d.exponent then
      ⟨negative, d.significand * Nat.pow 10 d.exponent.toNat, [0], none⟩
    else
      let places := (-d.exponent).toNat
      ⟨negative, d.significand / Nat.pow 10 places, digits.drop (digits.length - places), none⟩
  else
    ⟨negative, d.significand / Nat.pow 10 (digits.length - 1), digits.drop 1, some lead⟩

/-- A finite floating-point number in its shortest notation. -/
def ofBinary64 (x : Binary64) : Number :=
  layout x.negative x.shortest

/-! ## Text -/

/-- The number in characters.  An exponent always has a sign. -/
def render (n : Number) : List Char :=
  (if n.negative then ['-'] else []) ++ Digits.toChars (Digits.ofNat n.whole) ++
    (match n.fraction with
      | [] => []
      | fraction => '.' :: Digits.toChars fraction) ++
    (match n.exponent with
      | none => []
      | some e =>
        'e' :: (if e < 0 then '-' else '+') :: Digits.toChars (Digits.ofNat e.natAbs))

/-- Digits where at least one is required. -/
def scanDigits (text : List Char) : Option (List Digit × List Char) :=
  match Digits.scan text with
  | ([], _) => none
  | (digits, rest) => some (digits, rest)

/-- A minus sign, if there is one. -/
def scanSign : List Char → Bool × List Char
  | '-' :: rest => (true, rest)
  | text => (false, text)

/-- The digits before the point, which begin with zero only if there is no other. -/
def scanWhole (text : List Char) : Option (Nat × List Char) :=
  match scanDigits text with
  | none => none
  | some (digits, rest) =>
    if digits.head? = some 0 ∧ digits.length ≠ 1 then none
    else some (Digits.toNat digits, rest)

/-- The point and the digits after it, if there is a point. -/
def scanFraction : List Char → Option (List Digit × List Char)
  | '.' :: rest => scanDigits rest
  | text => some ([], text)

/-- The sign of an exponent, if it has one. -/
def scanExponentSign : List Char → Bool × List Char
  | '+' :: rest => (false, rest)
  | '-' :: rest => (true, rest)
  | text => (false, text)

/-- The exponent after its letter. -/
def scanExponentDigits (text : List Char) : Option (Option Int × List Char) :=
  match scanExponentSign text with
  | (negative, afterSign) =>
    match scanDigits afterSign with
    | none => none
    | some (digits, rest) =>
      let size : Int := Digits.toNat digits
      some (some (if negative then -size else size), rest)

/-- The exponent, if there is one. -/
def scanExponent : List Char → Option (Option Int × List Char)
  | 'e' :: rest => scanExponentDigits rest
  | 'E' :: rest => scanExponentDigits rest
  | text => some (none, text)

/-- The number at the front of a text, and what follows it. -/
def scan (text : List Char) : Option (Number × List Char) :=
  match scanSign text with
  | (negative, afterSign) =>
    match scanWhole afterSign with
    | none => none
    | some (whole, afterWhole) =>
      match scanFraction afterWhole with
      | none => none
      | some (fraction, afterFraction) =>
        match scanExponent afterFraction with
        | none => none
        | some (exponent, rest) => some (⟨negative, whole, fraction, exponent⟩, rest)

/-! ### Scanning moves forward -/

theorem length_of_scanDigits {text rest : List Char} {digits : List Digit}
    (h : scanDigits text = some (digits, rest)) : rest.length < text.length := by
  have hlength := Digits.length_scan text
  unfold scanDigits at h
  split at h
  · contradiction
  · rename_i ds after hne heq
    cases h
    rw [heq] at hlength
    cases digits with
    | nil => exact (hne rfl).elim
    | cons d ds =>
      simp only [List.length_cons] at hlength
      omega

theorem length_scanSign (text : List Char) : (scanSign text).2.length ≤ text.length := by
  unfold scanSign
  split <;> simp

theorem length_of_scanWhole {text rest : List Char} {whole : Nat}
    (h : scanWhole text = some (whole, rest)) : rest.length < text.length := by
  unfold scanWhole at h
  split at h
  · contradiction
  · split at h
    · contradiction
    · cases h
      exact length_of_scanDigits ‹_›

theorem length_of_scanFraction {text rest : List Char} {fraction : List Digit}
    (h : scanFraction text = some (fraction, rest)) : rest.length ≤ text.length := by
  unfold scanFraction at h
  split at h
  · have := length_of_scanDigits h
    simp only [List.length_cons]
    omega
  · cases h
    exact Nat.le_refl _

theorem length_scanExponentSign (text : List Char) :
    (scanExponentSign text).2.length ≤ text.length := by
  unfold scanExponentSign
  split <;> simp

theorem length_of_scanExponentDigits {text rest : List Char} {exponent : Option Int}
    (h : scanExponentDigits text = some (exponent, rest)) : rest.length ≤ text.length := by
  have hsign := length_scanExponentSign text
  unfold scanExponentDigits at h
  split at h
  rename_i negative afterSign heq
  rw [heq] at hsign
  split at h
  · contradiction
  · rename_i digits after hdigits
    have := length_of_scanDigits hdigits
    cases h
    simp only at hsign
    omega

theorem length_of_scanExponent {text rest : List Char} {exponent : Option Int}
    (h : scanExponent text = some (exponent, rest)) : rest.length ≤ text.length := by
  unfold scanExponent at h
  split at h
  · have := length_of_scanExponentDigits h
    simp only [List.length_cons]
    omega
  · have := length_of_scanExponentDigits h
    simp only [List.length_cons]
    omega
  · cases h
    exact Nat.le_refl _

/-- A number takes at least one character. -/
theorem length_of_scan {text rest : List Char} {n : Number} (h : scan text = some (n, rest)) :
    rest.length < text.length := by
  have hsign := length_scanSign text
  unfold scan at h
  split at h
  rename_i negative afterSign heq
  rw [heq] at hsign
  split at h
  · contradiction
  · rename_i whole afterWhole hwhole
    split at h
    · contradiction
    · rename_i fraction afterFraction hfraction
      split at h
      · contradiction
      · rename_i exponent after hexponent
        cases h
        have := length_of_scanWhole hwhole
        have := length_of_scanFraction hfraction
        have := length_of_scanExponent hexponent
        simp only at hsign
        omega

end Number

end Json

end PrioritySampling
