import Mathlib.Data.Fintype.Basic
import Mathlib.Tactic.FinCases
import PrioritySampling.Json.Token
/-!
# Reading numbers and strings back

A number in characters ends where no character follows that could go on with it, and then it is
read as it was.  A string ends at its closing quote.  The characters that are written as a code
unit make the only difference between what is written and what is read, and `assemble` undoes it.
-/

namespace PrioritySampling

namespace Digits

/-- No digit stands at the front of a text. -/
def Ends : List Char → Prop
  | [] => True
  | c :: _ => Digit.ofChar? c = none

theorem scan_of_ends {rest : List Char} (h : Ends rest) : scan rest = ([], rest) := by
  cases rest with
  | nil => rfl
  | cons c rest =>
    rw [Ends] at h
    rw [scan, h]

theorem scan_toChars (digits : List Digit) {rest : List Char} (h : Ends rest) :
    scan (toChars digits ++ rest) = (digits, rest) := by
  induction digits with
  | nil => exact scan_of_ends h
  | cons digit digits ih =>
    rw [toChars] at ih
    rw [toChars, List.map_cons, List.cons_append, scan, Digit.ofChar?_toChar, ih]

theorem ofNat_ne_nil (n : Nat) : ofNat n ≠ [] := by
  rw [ofNat]
  split <;> simp

/-- Only zero is written with a leading zero. -/
theorem head?_ofNat {n : Nat} (h : n ≠ 0) : (ofNat n).head? ≠ some 0 := by
  induction n using Nat.strongRecOn with
  | _ n ih =>
    rw [ofNat]
    split
    · rw [List.head?_cons, ne_eq, Option.some.injEq, Fin.ext_iff]
      exact h
    · rw [List.head?_append_of_ne_nil _ (ofNat_ne_nil _)]
      exact ih (n / 10) (by omega) (by omega)

end Digits

namespace Json

namespace Number

/-! ## Numbers -/

/-- What stands at the front of a text does not belong to a number before it. -/
def Ends : List Char → Prop
  | [] => True
  | c :: _ => Digit.ofChar? c = none ∧ c ≠ '.' ∧ c ≠ 'e' ∧ c ≠ 'E'

theorem Ends.digits {text : List Char} (h : Ends text) : Digits.Ends text := by
  cases text with
  | nil => trivial
  | cons c text => exact h.1

/-- The digits after the point in characters, with the point. -/
def renderFraction : List Digit → List Char
  | [] => []
  | fraction => '.' :: Digits.toChars fraction

/-- The exponent in characters. -/
def renderExponent : Option Int → List Char
  | none => []
  | some e => 'e' :: (if e < 0 then '-' else '+') :: Digits.toChars (Digits.ofNat e.natAbs)

theorem render_append (n : Number) (rest : List Char) :
    n.render ++ rest = (if n.negative then ['-'] else []) ++
      (Digits.toChars (Digits.ofNat n.whole) ++
        (renderFraction n.fraction ++ (renderExponent n.exponent ++ rest))) := by
  simp only [← List.append_assoc]
  rfl

theorem scanDigits_toChars {digits : List Digit} (hne : digits ≠ []) {rest : List Char}
    (h : Digits.Ends rest) : scanDigits (Digits.toChars digits ++ rest) = some (digits, rest) := by
  rw [scanDigits, Digits.scan_toChars digits h]
  cases digits with
  | nil => exact absurd rfl hne
  | cons digit digits => rfl

/-- The whole part begins with a digit. -/
theorem exists_toChars_ofNat (n : Nat) (rest : List Char) :
    ∃ (digit : Digit) (later : List Char),
      Digits.toChars (Digits.ofNat n) ++ rest = digit.toChar :: later := by
  cases h : Digits.ofNat n with
  | nil => exact absurd h (Digits.ofNat_ne_nil n)
  | cons digit digits => exact ⟨digit, _, rfl⟩

theorem scanSign_digit (digit : Digit) (rest : List Char) :
    scanSign (digit.toChar :: rest) = (false, digit.toChar :: rest) := by
  fin_cases digit <;> rfl

theorem scanSign_render (negative : Bool) (n : Nat) (rest : List Char) :
    scanSign ((if negative then ['-'] else []) ++ (Digits.toChars (Digits.ofNat n) ++ rest)) =
      (negative, Digits.toChars (Digits.ofNat n) ++ rest) := by
  cases negative with
  | true => rfl
  | false =>
    obtain ⟨digit, later, h⟩ := exists_toChars_ofNat n rest
    rw [h]
    exact scanSign_digit digit later

theorem scanWhole_toChars (n : Nat) {rest : List Char} (h : Digits.Ends rest) :
    scanWhole (Digits.toChars (Digits.ofNat n) ++ rest) = some (n, rest) := by
  have hcanonical : ¬ ((Digits.ofNat n).head? = some 0 ∧ (Digits.ofNat n).length ≠ 1) := by
    rintro ⟨hhead, hlength⟩
    obtain rfl : n = 0 := by
      by_contra hzero
      exact Digits.head?_ofNat hzero hhead
    exact hlength (by rw [Digits.ofNat, dif_pos (by decide), List.length_singleton])
  rw [scanWhole, scanDigits_toChars (Digits.ofNat_ne_nil n) h]
  simp only [if_neg hcanonical, Digits.toNat_ofNat]

theorem ends_renderExponent {rest : List Char} (h : Ends rest) (exponent : Option Int) :
    Digits.Ends (renderExponent exponent ++ rest) := by
  cases exponent with
  | none => exact h.digits
  | some e => rfl

theorem ends_renderFraction {rest : List Char} (h : Digits.Ends rest) (fraction : List Digit) :
    Digits.Ends (renderFraction fraction ++ rest) := by
  cases fraction with
  | nil => exact h
  | cons digit digits => rfl

/-- A fraction ends where no digit follows, and no point either if there is no fraction. -/
theorem scanFraction_render (fraction : List Digit) {rest : List Char} (h : Digits.Ends rest)
    (hpoint : rest.head? ≠ some '.') :
    scanFraction (renderFraction fraction ++ rest) = some (fraction, rest) := by
  cases fraction with
  | nil =>
    rw [renderFraction, List.nil_append, scanFraction]
    rintro later rfl
    exact hpoint rfl
  | cons digit digits =>
    rw [renderFraction, List.cons_append, scanFraction]
    · exact scanDigits_toChars (List.cons_ne_nil digit digits) h
    · exact List.cons_ne_nil digit digits

theorem scanExponentDigits_render (e : Int) {rest : List Char} (h : Digits.Ends rest) :
    scanExponentDigits ((if e < 0 then '-' else '+') ::
      (Digits.toChars (Digits.ofNat e.natAbs) ++ rest)) = some (some e, rest) := by
  have hscan := scanDigits_toChars (Digits.ofNat_ne_nil e.natAbs) h
  by_cases hsign : e < 0
  · rw [if_pos hsign, scanExponentDigits, scanExponentSign]
    simp only [hscan, if_true, Digits.toNat_ofNat, Option.some.injEq, Prod.mk.injEq, and_true]
    omega
  · rw [if_neg hsign, scanExponentDigits, scanExponentSign]
    simp only [hscan, Digits.toNat_ofNat, Option.some.injEq, Prod.mk.injEq, and_true, Bool.false_eq_true,
      if_false]
    omega

theorem scanExponent_render (exponent : Option Int) {rest : List Char} (h : Ends rest) :
    scanExponent (renderExponent exponent ++ rest) = some (exponent, rest) := by
  cases exponent with
  | none =>
    cases rest with
    | nil => rfl
    | cons c rest =>
      obtain ⟨-, -, he, hE⟩ := h
      rw [renderExponent, List.nil_append, scanExponent]
      · rintro later ⟨⟩
        exact he rfl
      · rintro later ⟨⟩
        exact hE rfl
  | some e => exact scanExponentDigits_render e h.digits

/-- A number is read as it was written. -/
theorem scan_render (n : Number) {rest : List Char} (h : Ends rest) :
    scan (n.render ++ rest) = some (n, rest) := by
  -- Without a fraction, what comes next must not be taken for one.
  have hpoint : (renderExponent n.exponent ++ rest).head? ≠ some '.' := by
    cases n.exponent with
    | none =>
      cases rest with
      | nil => exact nofun
      | cons c rest =>
        rintro ⟨⟩
        exact h.2.1 rfl
    | some e => exact nofun
  have hexponent := ends_renderExponent h n.exponent
  have hfraction := ends_renderFraction hexponent n.fraction
  rw [render_append, scan, scanSign_render]
  simp only [scanWhole_toChars n.whole hfraction, scanFraction_render n.fraction hexponent hpoint,
    scanExponent_render n.exponent h]

/-- A number begins with a sign or with a digit. -/
theorem exists_render (n : Number) :
    ∃ (c : Char) (later : List Char), n.render = c :: later ∧
      (c = '-' ∨ ∃ digit : Digit, c = digit.toChar) := by
  have happend := render_append n []
  rw [List.append_nil] at happend
  rw [happend]
  cases n.negative with
  | true => exact ⟨'-', _, rfl, .inl rfl⟩
  | false =>
    obtain ⟨digit, later, hdigit⟩ := exists_toChars_ofNat n.whole
      (renderFraction n.fraction ++ (renderExponent n.exponent ++ []))
    exact ⟨digit.toChar, later, hdigit, .inr ⟨digit, rfl⟩⟩

/-- An integer is taken for what it is. -/
theorem toInt?_ofInt (i : Int) : (ofInt i).toInt? = some i := by
  rw [ofInt, toInt?]
  by_cases hsign : i < 0
  · have hne : i.natAbs ≠ 0 := by omega
    simp only [hsign, decide_true, if_true, if_neg hne, Option.some.injEq]
    omega
  · simp only [hsign, decide_false, Bool.false_eq_true, if_false, Option.some.injEq]
    omega

end Number

namespace Text

/-! ## Strings -/

theorem hexValue?_hexDigit {n : Nat} (h : n < 16) : hexValue? (hexDigit n) = some n := by
  revert n
  decide

/-- Two hexadecimal digits give a number below 256 back. -/
theorem codeUnit?_hexDigit {n : Nat} (h : n < 256) :
    codeUnit? '0' '0' (hexDigit (n / 16)) (hexDigit (n % 16)) = some n := by
  have hzero : hexValue? '0' = some 0 := rfl
  have hhigh := hexValue?_hexDigit (show n / 16 < 16 by omega)
  have hlow := hexValue?_hexDigit (show n % 16 < 16 by omega)
  simp only [codeUnit?, hzero, hhigh, hlow, Option.some.injEq]
  omega

/-- A code unit that is no half of a pair spells a character, whatever follows. -/
theorem assemble_codeUnit {code : Nat} (h : code < 0xd800) (pieces : List Piece) :
    assemble (.codeUnit code :: pieces) = (assemble pieces).map (Char.ofNat code :: ·) := by
  have hhigh : isHighSurrogate code = false := by
    simp only [isHighSurrogate, Bool.and_eq_false_iff, decide_eq_false_iff_not]
    omega
  have hlow : isLowSurrogate code = false := by
    simp only [isLowSurrogate, Bool.and_eq_false_iff, decide_eq_false_iff_not]
    omega
  match pieces with
  | [] | .char _ :: _ | .codeUnit _ :: _ =>
    simp only [assemble, hhigh, hlow, Bool.or_self, Bool.false_eq_true, if_false]

/-- What is written for a character is read as one piece, which spells the character. -/
theorem exists_piece (c : Char) :
    ∃ piece, (∀ rest, scanPieces (escape c ++ rest) = addPiece piece (scanPieces rest)) ∧
      ∀ pieces, assemble (piece :: pieces) = (assemble pieces).map (c :: ·) := by
  rw [escape]
  split_ifs with hquote hbackslash hbackspace hfeed hnewline hreturn htab hcontrol
  -- Seven characters have an escape of their own.
  iterate 7
    · subst c
      exact ⟨.char _, fun rest => rfl, fun pieces => rfl⟩
  · refine ⟨.codeUnit c.toNat, fun rest => ?_, fun pieces => ?_⟩
    · simp only [List.cons_append, List.nil_append]
      rw [scanPieces, codeUnit?_hexDigit (by omega)]
    · rw [assemble_codeUnit (by omega), Char.ofNat_toNat]
  · refine ⟨.char c, fun rest => ?_, fun pieces => rfl⟩
    rw [List.singleton_append, scanPieces, if_neg hcontrol]
    · exact hquote
    · intro _ _ _ _ _ hc
      exact absurd hc hbackslash
    · intro _ _ hc
      exact absurd hc hbackslash

/-- A text is read as it was written, up to the closing quote. -/
theorem exists_scanPieces (text rest : List Char) :
    ∃ pieces, scanPieces (text.flatMap escape ++ '"' :: rest) = some (pieces, rest) ∧
      assemble pieces = some text := by
  induction text with
  | nil => exact ⟨[], rfl, rfl⟩
  | cons c text ih =>
    obtain ⟨pieces, hscan, hspell⟩ := ih
    obtain ⟨piece, hpiece, hspells⟩ := exists_piece c
    refine ⟨piece :: pieces, ?_, ?_⟩
    · rw [List.flatMap_cons, List.append_assoc, hpiece, hscan]
      rfl
    · rw [hspells, hspell]
      rfl

end Text

end Json

end PrioritySampling
