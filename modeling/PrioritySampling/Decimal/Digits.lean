/-!
# Decimal digits

Natural numbers in decimal notation, as lists of digits with the leading one first.  Numbers
are written without leading zeros; reading accepts any list.
-/

namespace PrioritySampling

/-- A decimal digit. -/
abbrev Digit := Fin 10

namespace Digit

/-- The character that shows a digit. -/
def toChar (digit : Digit) : Char :=
  Char.ofNat (48 + digit.val)

/-- The digit that a character shows. -/
def ofChar? (c : Char) : Option Digit :=
  if h : 48 ≤ c.toNat ∧ c.toNat < 58 then some ⟨c.toNat - 48, by omega⟩ else none

@[simp]
theorem ofChar?_toChar (digit : Digit) : ofChar? digit.toChar = some digit := by
  revert digit
  decide

end Digit

namespace Digits

/-- The digits of a number. -/
def ofNat (n : Nat) : List Digit :=
  if h : n < 10 then [⟨n, h⟩]
  else ofNat (n / 10) ++ [⟨n % 10, Nat.mod_lt n (by decide)⟩]

/-- The number that a list of digits denotes. -/
def toNat (digits : List Digit) : Nat :=
  digits.foldl (fun n digit => 10 * n + digit.val) 0

/-- How many digits a number has.  Zero has none here, so that `n` lies below the power of ten
with this exponent and, unless it is zero, not below the one before. -/
def count (n : Nat) : Nat :=
  if n = 0 then 0 else count (n / 10) + 1

/-- A list of digits in characters. -/
def toChars (digits : List Digit) : List Char :=
  digits.map Digit.toChar

/-- The digits at the front of a text, and what follows them. -/
def scan : List Char → List Digit × List Char
  | [] => ([], [])
  | c :: rest =>
    match Digit.ofChar? c with
    | some digit =>
      let (digits, after) := scan rest
      (digit :: digits, after)
    | none => ([], c :: rest)

@[simp]
theorem toNat_append_singleton (digits : List Digit) (digit : Digit) :
    toNat (digits ++ [digit]) = 10 * toNat digits + digit.val := by
  simp [toNat]

/-- Writing a number and reading it gives it back. -/
@[simp]
theorem toNat_ofNat (n : Nat) : toNat (ofNat n) = n := by
  induction n using Nat.strongRecOn with
  | _ n ih =>
    rw [ofNat]
    split
    · simp [toNat]
    · rw [toNat_append_singleton, ih (n / 10) (by omega)]
      simp only
      omega

/-- Nothing gets lost in scanning. -/
theorem scan_eq_append (text : List Char) :
    ∃ written : List Char, written.length = (scan text).1.length ∧
      text = written ++ (scan text).2 := by
  induction text with
  | nil => exact ⟨[], rfl, rfl⟩
  | cons c rest ih =>
    simp only [scan]
    split
    · obtain ⟨written, hlength, htext⟩ := ih
      exact ⟨c :: written, by simp [hlength], by simp [← htext]⟩
    · exact ⟨[], rfl, rfl⟩

/-- What follows the digits is the shorter for every digit read. -/
theorem length_scan (text : List Char) :
    (scan text).1.length + (scan text).2.length = text.length := by
  obtain ⟨written, hlength, htext⟩ := scan_eq_append text
  have := congrArg List.length htext
  simp only [List.length_append] at this
  omega

end Digits

end PrioritySampling
