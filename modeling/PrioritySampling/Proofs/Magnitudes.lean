import Mathlib.Algebra.Order.Field.Power
import Mathlib.Data.Rat.Cast.Order
import Mathlib.Tactic.NormNum
import Mathlib.Tactic.Positivity
import Mathlib.Tactic.Ring
import PrioritySampling.Json.Number
/-!
# Numbers that are read are finite

A number in a text may have any exponent, but what it reads as is a finite floating-point number
or nothing.  Scaling up looks at its result before it hands it out.  Scaling down does not: its
significand is finite, since it has at most 64 bits, and it is divided by powers of ten, which are
at least two, so it cannot leave the range.

The bound comes from rounding.  `quotientLog2` is the binary logarithm of a quotient, so a quotient
below `2 ^ k` is rounded to a magnitude up to that of `2 ^ k`.
-/

namespace PrioritySampling

/-! ## Logarithms of quotients -/

/-- A power of two with an exponent of either sign, as a quotient of whole powers. -/
theorem two_pow_div_two_pow (e : Int) :
    (2 : ℚ) ^ e.toNat / 2 ^ (-e).toNat = (2 : ℚ) ^ e := by
  rw [← zpow_natCast, ← zpow_natCast, ← zpow_sub₀ two_ne_zero, Int.toNat_sub_toNat_neg]

section Quotient

variable {num den : Nat}

theorem two_zpow_le_div_iff (hden : den ≠ 0) (e : Int) :
    (2 : ℚ) ^ e ≤ (num : ℚ) / den ↔ 2 ^ e.toNat * den ≤ num * 2 ^ (-e).toNat := by
  have hpos : (0 : ℚ) < den := by exact_mod_cast Nat.pos_of_ne_zero hden
  rw [← two_pow_div_two_pow, div_le_div_iff₀ (by positivity) hpos]
  exact_mod_cast Iff.rfl

theorem two_zpow_log2_le {n : Nat} (hn : n ≠ 0) : (2 : ℚ) ^ (n.log2 : Int) ≤ n := by
  rw [zpow_natCast]
  exact_mod_cast Nat.log2_self_le hn

theorem lt_two_zpow_log2_succ (n : Nat) : (n : ℚ) < 2 ^ ((n.log2 : Int) + 1) := by
  have hlt : n < 2 ^ (n.log2 + 1) := Nat.lt_log2_self
  exact_mod_cast hlt

/-- The logarithm of a quotient is at least the difference of the logarithms less one, and at most
that difference. -/
theorem zpow_quotientLog2 (hnum : num ≠ 0) (hden : den ≠ 0) :
    (2 : ℚ) ^ quotientLog2 num den ≤ (num : ℚ) / den ∧
      (num : ℚ) / den < 2 ^ (quotientLog2 num den + 1) := by
  have hpos : (0 : ℚ) < den := by exact_mod_cast Nat.pos_of_ne_zero hden
  have hnumLe := two_zpow_log2_le hnum
  have hnumLt := lt_two_zpow_log2_succ num
  have hdenLe := two_zpow_log2_le hden
  have hdenLt := lt_two_zpow_log2_succ den
  have htwo : (2 : ℚ) ≠ 0 := two_ne_zero
  rw [quotientLog2]
  split
  · rename_i hguess
    refine ⟨(two_zpow_le_div_iff hden _).mpr hguess, ?_⟩
    rw [div_lt_iff₀ hpos]
    calc (num : ℚ) < 2 ^ ((num.log2 : Int) + 1) := hnumLt
      _ = 2 ^ ((num.log2 : Int) - den.log2 + 1) * 2 ^ (den.log2 : Int) := by
        rw [← zpow_add₀ htwo]
        congr 1
        ring
      _ ≤ 2 ^ ((num.log2 : Int) - den.log2 + 1) * den :=
        mul_le_mul_of_nonneg_left hdenLe (by positivity)
  · rename_i hguess
    rw [sub_add_cancel]
    refine ⟨?_, not_le.mp (mt (two_zpow_le_div_iff hden _).mp hguess)⟩
    rw [le_div_iff₀ hpos]
    calc (2 : ℚ) ^ ((num.log2 : Int) - den.log2 - 1) * den
        ≤ 2 ^ ((num.log2 : Int) - den.log2 - 1) * 2 ^ ((den.log2 : Int) + 1) :=
          mul_le_mul_of_nonneg_left hdenLt.le (by positivity)
      _ = 2 ^ (num.log2 : Int) := by
        rw [← zpow_add₀ htwo]
        congr 1
        ring
      _ ≤ num := hnumLe

theorem le_nearest {bound : Nat} (hden : den ≠ 0) (h : bound * den ≤ num) :
    bound ≤ nearest num den := by
  have hle : bound ≤ num / den := (Nat.le_div_iff_mul_le (Nat.pos_of_ne_zero hden)).mpr h
  rw [nearest]
  split
  · exact hle
  · exact hle.trans (Nat.le_succ _)

theorem nearest_le {bound : Nat} (h : num < bound * den) : nearest num den ≤ bound := by
  have hlt : num / den < bound := Nat.div_lt_of_lt_mul (by rwa [Nat.mul_comm])
  rw [nearest]
  split
  · exact hlt.le
  · exact hlt

end Quotient

namespace Binary64

/-! ## Magnitudes -/

theorem magnitude_ofMagnitude {negative : Bool} {magnitude : Nat} (h : magnitude < signBit) :
    (ofMagnitude negative magnitude).magnitude = magnitude := by
  have hlt : (if negative then signBit else 0) + magnitude < UInt64.size := by
    have hsize : UInt64.size = 2 * signBit := rfl
    split <;> omega
  rw [Binary64.magnitude, ofMagnitude, UInt64.toNat_ofNat_of_lt' hlt]
  split
  · rw [Nat.add_mod_left, Nat.mod_eq_of_lt h]
  · rw [Nat.zero_add, Nat.mod_eq_of_lt h]

/-- A quotient below a power of two is rounded to a magnitude up to that of the power. -/
theorem nearestMagnitude_le {num den k : Nat} (hden : den ≠ 0) (h : num < 2 ^ k * den) :
    nearestMagnitude num den ≤ (k + 1023) * leadingBit := by
  rw [nearestMagnitude]
  split
  · exact Nat.zero_le _
  · rename_i hnum
    obtain ⟨hle, hlt⟩ := zpow_quotientLog2 hnum hden
    have hpos : (0 : ℚ) < den := by exact_mod_cast Nat.pos_of_ne_zero hden
    have hquotient : (num : ℚ) / den < 2 ^ (k : Int) := by
      rw [div_lt_iff₀ hpos]
      exact_mod_cast h
    have hlog : quotientLog2 num den < k :=
      (zpow_lt_zpow_iff_right₀ one_lt_two).mp (hle.trans_lt hquotient)
    have hleast : leastScale = -1074 := rfl
    have hbit : leadingBit = 4503599627370496 := rfl
    set scale := max (quotientLog2 num den - 52) leastScale with hscale
    -- The scaled quotient has at most 53 bits before the point.
    have hsignificand :
        nearest (num * Nat.pow 2 (-scale).toNat) (den * Nat.pow 2 scale.toNat) ≤ 2 ^ 53 := by
      have hscaled : (num : ℚ) / (den * 2 ^ 53 : Nat) < 2 ^ scale := by
        rw [Nat.cast_mul, ← div_div, div_lt_iff₀ (by positivity)]
        calc (num : ℚ) / den < 2 ^ (quotientLog2 num den + 1) := hlt
          _ ≤ 2 ^ (scale + 53) := zpow_le_zpow_right₀ one_le_two (by omega)
          _ = 2 ^ scale * ((2 ^ 53 : Nat) : ℚ) := by
            rw [zpow_add₀ two_ne_zero]
            norm_num
      rw [← not_le, two_zpow_le_div_iff (by positivity), not_le] at hscaled
      refine nearest_le (lt_of_lt_of_eq hscaled ?_)
      show 2 ^ scale.toNat * (den * 2 ^ 53) = 2 ^ 53 * (den * 2 ^ scale.toNat)
      ring
    dsimp only
    rw [hleast, hbit]
    omega

/-- A quotient that is not below a power of two is rounded to a magnitude that is not below that of
the power. -/
theorem le_nearestMagnitude {num den k : Nat} (hden : den ≠ 0) (h : 2 ^ k * den ≤ num) :
    (k + 1023) * leadingBit ≤ nearestMagnitude num den := by
  have hpos : (0 : ℚ) < den := by exact_mod_cast Nat.pos_of_ne_zero hden
  have hnum : num ≠ 0 := by
    have hlow : 0 < 2 ^ k * den := by positivity
    omega
  rw [nearestMagnitude, if_neg hnum]
  obtain ⟨hle, hlt⟩ := zpow_quotientLog2 hnum hden
  have hquotient : (2 : ℚ) ^ (k : Int) ≤ num / den := by
    rw [le_div_iff₀ hpos]
    exact_mod_cast h
  have hlog : (k : Int) < quotientLog2 num den + 1 :=
    (zpow_lt_zpow_iff_right₀ one_lt_two).mp (hquotient.trans_lt hlt)
  have hleast : leastScale = -1074 := rfl
  set scale := max (quotientLog2 num den - 52) leastScale with hscale
  -- The scale is not the least one, so the scaled quotient has 53 bits before the point.
  have hsignificand :
      2 ^ 52 ≤ nearest (num * Nat.pow 2 (-scale).toNat) (den * Nat.pow 2 scale.toNat) := by
    have hscaled : (2 : ℚ) ^ scale ≤ (num : ℚ) / (den * 2 ^ 52 : Nat) := by
      rw [Nat.cast_mul, ← div_div, le_div_iff₀ (by positivity)]
      calc (2 : ℚ) ^ scale * ((2 ^ 52 : Nat) : ℚ) = 2 ^ (scale + 52) := by
            rw [zpow_add₀ two_ne_zero]
            norm_num
        _ ≤ 2 ^ quotientLog2 num den := zpow_le_zpow_right₀ one_le_two (by omega)
        _ ≤ (num : ℚ) / den := hle
    rw [two_zpow_le_div_iff (by positivity)] at hscaled
    have hscaledDen : den * Nat.pow 2 scale.toNat ≠ 0 :=
      Nat.mul_ne_zero hden (Nat.two_pow_pos _).ne'
    refine le_nearest hscaledDen (le_of_eq_of_le ?_ hscaled)
    show 2 ^ 52 * (den * 2 ^ scale.toNat) = 2 ^ scale.toNat * (den * 2 ^ 52)
    ring
  have hshift : k + 1022 ≤ (scale - leastScale).toNat := by omega
  calc (k + 1023) * leadingBit = (k + 1022) * leadingBit + 2 ^ 52 := by
        rw [Nat.add_mul, Nat.add_mul, Nat.add_assoc]
        rfl
    _ ≤ (scale - leastScale).toNat * leadingBit + nearest (num * Nat.pow 2 (-scale).toNat)
        (den * Nat.pow 2 scale.toNat) :=
      Nat.add_le_add (Nat.mul_le_mul_right _ hshift) hsignificand

/-- The exponent of the greatest power of two that is a finite number. -/
def greatestExponent : Nat := 1023

theorem isFinite_rounded {num den k : Nat} (negative : Bool) (hden : den ≠ 0)
    (h : num < 2 ^ k * den) (hk : k ≤ greatestExponent) :
    (rounded negative num den).isFinite = true := by
  have hle := nearestMagnitude_le hden h
  have hmagnitude : nearestMagnitude num den < infinity :=
    calc nearestMagnitude num den ≤ (k + 1023) * leadingBit := hle
      _ ≤ (greatestExponent + 1023) * leadingBit :=
        Nat.mul_le_mul_right _ (Nat.add_le_add_right hk 1023)
      _ < infinity := by decide
  have hsign : infinity < signBit := by decide
  rw [rounded, Nat.min_eq_left hmagnitude.le, isFinite,
    magnitude_ofMagnitude (hmagnitude.trans hsign)]
  exact decide_eq_true hmagnitude

/-! ## Products and quotients -/

theorem denominator_pos (x : Binary64) : 0 < x.denominator :=
  Nat.two_pow_pos _

/-- A finite number lies below the first power of two that is none. -/
theorem numerator_lt {x : Binary64} (h : x.isFinite = true) :
    x.numerator < 2 ^ (greatestExponent + 1) * x.denominator := by
  have hlt : x.magnitude < 2047 * 4503599627370496 := of_decide_eq_true h
  have hbit : leadingBit = 4503599627370496 := rfl
  have hleast : leastScale = -1074 := rfl
  have hsignificand : x.significand < 2 ^ 53 := by
    rw [significand, hbit]
    split <;> omega
  have hscale : x.scale.toNat ≤ 971 + (-x.scale).toNat := by
    rw [scale, hbit, hleast]
    split <;> omega
  have hexponent : 53 + 971 = greatestExponent + 1 := rfl
  calc x.numerator = x.significand * 2 ^ x.scale.toNat := rfl
    _ < 2 ^ 53 * 2 ^ x.scale.toNat := Nat.mul_lt_mul_of_pos_right hsignificand (by positivity)
    _ ≤ 2 ^ 53 * 2 ^ (971 + (-x.scale).toNat) :=
      Nat.mul_le_mul_left _ (Nat.pow_le_pow_right (by decide) hscale)
    _ = 2 ^ (greatestExponent + 1) * x.denominator := by
      rw [← Nat.pow_add, ← Nat.add_assoc, hexponent, Nat.pow_add]
      rfl

/-- A finite number stays finite when it is divided by two or more. -/
theorem isFinite_quotient {x y : Binary64} (hx : x.isFinite = true)
    (hy : 2 * y.denominator ≤ y.numerator) : (x.quotient y).isFinite = true := by
  have hden := x.denominator_pos
  have hden' := y.denominator_pos
  refine isFinite_rounded _ (Nat.mul_pos hden (by omega)).ne' ?_ (Nat.le_refl greatestExponent)
  calc x.numerator * y.denominator
      < 2 ^ (greatestExponent + 1) * x.denominator * y.denominator :=
        Nat.mul_lt_mul_of_pos_right (numerator_lt hx) hden'
    _ = 2 ^ greatestExponent * (x.denominator * (2 * y.denominator)) := by ring
    _ ≤ 2 ^ greatestExponent * (x.denominator * y.numerator) :=
      Nat.mul_le_mul_left _ (Nat.mul_le_mul_left _ hy)

/-! ## Scaling -/

theorem two_le_of_magnitude {x : Binary64} (h : 1024 * leadingBit ≤ x.magnitude) :
    2 * x.denominator ≤ x.numerator := by
  have hbit : leadingBit = 4503599627370496 := rfl
  have hleast : leastScale = -1074 := rfl
  have hsignificand : 2 ^ 52 ≤ x.significand := by
    rw [significand, hbit]
    split <;> omega
  have hscale : 1 + (-x.scale).toNat ≤ 52 + x.scale.toNat := by
    rw [scale, hbit, hleast]
    split <;> omega
  calc 2 * x.denominator = 2 ^ (1 + (-x.scale).toNat) := (Nat.pow_add 2 1 _).symm
    _ ≤ 2 ^ (52 + x.scale.toNat) := Nat.pow_le_pow_right (by decide) hscale
    _ = 2 ^ 52 * 2 ^ x.scale.toNat := Nat.pow_add 2 52 _
    _ ≤ x.numerator := Nat.mul_le_mul_right _ hsignificand

/-- A power of ten is at least two, even when it has been rounded. -/
theorem two_le_powerOfTen {exponent : Nat} (h : 1 ≤ exponent) :
    2 * (powerOfTen exponent).denominator ≤ (powerOfTen exponent).numerator := by
  have hten : 2 ^ 1 * 1 ≤ 10 ^ exponent := by
    calc 2 ^ 1 * 1 ≤ 10 ^ 1 := by decide
      _ ≤ 10 ^ exponent := Nat.pow_le_pow_right (by decide) h
  have hle : 1024 * leadingBit ≤ nearestMagnitude (Nat.pow 10 exponent) 1 :=
    le_nearestMagnitude one_ne_zero hten
  have hsign : infinity < signBit := by decide
  refine two_le_of_magnitude ?_
  rw [powerOfTen, ofNat, rounded,
    magnitude_ofMagnitude (Nat.lt_of_le_of_lt (Nat.min_le_right _ _) hsign)]
  exact Nat.le_min.mpr ⟨hle, by decide⟩

theorem isFinite_scaleDown {exponent : Nat} {x : Binary64} (hexponent : 1 ≤ exponent)
    (h : x.isFinite = true) : (x.scaleDown exponent).isFinite = true := by
  fun_induction scaleDown exponent x with
  | case1 exponent x hzero => exact h
  | case2 exponent x hzero hle => exact isFinite_quotient h (two_le_powerOfTen hexponent)
  | case3 exponent x hzero hgreater ih =>
    have hpower : 1 ≤ greatestPower := by decide
    have hquotient := isFinite_quotient h (two_le_powerOfTen hpower)
    exact ih (by omega) hquotient

theorem isFinite_of_scaleUp {exponent : Nat} {x scaled : Binary64} (hx : x.isFinite = true)
    (h : x.scaleUp exponent = some scaled) : scaled.isFinite = true := by
  rw [scaleUp] at h
  split at h
  · cases h
    exact hx
  · split at h
    · simp only [Option.ite_none_right_eq_some] at h
      obtain ⟨hscaled, ⟨⟩⟩ := h
      exact hscaled
    · cases h

end Binary64

namespace Json.Number

/-- What a number reads as is finite. -/
theorem isFinite_of_toBinary64? {n : Number} {x : Binary64} (h : n.toBinary64? = some x) :
    x.isFinite = true := by
  have hbits : n.abridged.significand < 2 ^ 64 * 1 := by
    exact fill_lt (fill_lt (by decide) _) _
  have hfinite := Binary64.isFinite_rounded n.negative one_ne_zero hbits (by decide)
  rw [toBinary64?, Decimal.scaled] at h
  split at h
  · exact Binary64.isFinite_of_scaleUp hfinite h
  · rename_i hexponent
    cases h
    exact Binary64.isFinite_scaleDown (by omega) hfinite

end Json.Number

end PrioritySampling
