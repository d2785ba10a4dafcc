import Mathlib.Order.WithBot
import PrioritySampling.Proofs.Magnitudes
import PrioritySampling.Proofs.Ranking
/-!
# Priorities as numbers

Events are ranked by a key that is read off the bit pattern of their priority.  This module says
what that order is in terms of the numbers that the patterns stand for, and that no pattern upsets
it.

The value of a pattern that is a number is a fraction or an infinity.  The step from patterns to
values is `units`, the whole number of least positive numbers that a magnitude stands for: it rises
with the magnitude, also where a significand of full length is followed by the next power of two.
So the keys of numbers are ordered like their values, except that the two zeros have one value and
must have one key, which is what settling a pattern is for.  Patterns that are no numbers keep their
sign when they are settled, and with it their place outside all numbers.
-/

namespace PrioritySampling

namespace Binary64

/-! ## Values -/

/-- How many of the least positive number make up the number of a magnitude. -/
def units (magnitude : Nat) : Nat :=
  if magnitude / leadingBit = 0 then magnitude
  else (leadingBit + magnitude % leadingBit) * 2 ^ (magnitude / leadingBit - 1)

/-- A greater magnitude stands for a greater number. -/
theorem units_strictMono : StrictMono units := by
  refine strictMono_nat_of_lt_succ fun magnitude => ?_
  rw [units, units, leadingBit]
  by_cases hlast : (magnitude + 1) % 0x0010000000000000 = 0
  · -- The next magnitude is the first one of the next power of two.
    have hnext : (magnitude + 1) / 0x0010000000000000 = magnitude / 0x0010000000000000 + 1 := by
      omega
    rw [hnext, hlast, if_neg (Nat.succ_ne_zero _), Nat.add_sub_cancel]
    split
    · rename_i hzero
      rw [hzero]
      omega
    · rename_i hpos
      obtain ⟨exponent, hexponent⟩ := Nat.exists_eq_succ_of_ne_zero hpos
      rw [hexponent, Nat.succ_sub_one, Nat.succ_eq_add_one, Nat.pow_succ, Nat.mul_comm _ 2,
        ← Nat.mul_assoc]
      exact Nat.mul_lt_mul_of_pos_right (by omega) (Nat.two_pow_pos exponent)
  · have hsame : (magnitude + 1) / 0x0010000000000000 = magnitude / 0x0010000000000000 := by omega
    have hstep : (magnitude + 1) % 0x0010000000000000 = magnitude % 0x0010000000000000 + 1 := by
      omega
    rw [hsame, hstep]
    split
    · exact Nat.lt_succ_self magnitude
    · exact Nat.mul_lt_mul_of_pos_right (Nat.lt_succ_self _) (Nat.two_pow_pos _)

/-- The fraction that a finite pattern stands for. -/
def toRat (x : Binary64) : ℚ :=
  (if x.negative then -1 else 1) * (x.numerator / x.denominator)

/-- The value of a pattern that is a number: a fraction, or the infinity of its sign. -/
def value (x : Binary64) : WithBot (WithTop ℚ) :=
  if x.isFinite then ((x.toRat : WithTop ℚ) : WithBot (WithTop ℚ))
  else if x.negative then ⊥
  else ((⊤ : WithTop ℚ) : WithBot (WithTop ℚ))

/-- The number of units with its sign. -/
def signedUnits (x : Binary64) : Int :=
  if x.negative then -(units x.magnitude : Int) else units x.magnitude

theorem numerator_div_denominator (x : Binary64) :
    (x.numerator : ℚ) / x.denominator = units x.magnitude * 2 ^ leastScale := by
  have hquotient : (x.numerator : ℚ) / x.denominator = x.significand * 2 ^ x.scale := by
    rw [← two_pow_div_two_pow, ← mul_div_assoc, numerator, denominator, Nat.cast_mul]
    norm_cast
  rw [hquotient, significand, scale, units]
  split
  · rfl
  · rename_i hpos
    rw [Int.add_comm, zpow_add₀ two_ne_zero, mul_comm ((2 : ℚ) ^ leastScale), ← mul_assoc]
    congr 1
    have hexponent : ((x.magnitude / leadingBit : Nat) : Int) - 1 =
        ((x.magnitude / leadingBit - 1 : Nat) : Int) :=
      (Nat.cast_pred (Nat.pos_of_ne_zero hpos)).symm
    rw [hexponent, zpow_natCast]
    push_cast
    rfl

theorem toRat_eq (x : Binary64) : x.toRat = x.signedUnits * 2 ^ leastScale := by
  rw [toRat, numerator_div_denominator, signedUnits]
  split
  · push_cast
    ring
  · push_cast
    ring

theorem toRat_lt_iff {x y : Binary64} : x.toRat < y.toRat ↔ x.signedUnits < y.signedUnits := by
  have hpos : (0 : ℚ) < 2 ^ leastScale := zpow_pos two_pos _
  rw [toRat_eq, toRat_eq, mul_lt_mul_iff_left₀ hpos, Int.cast_lt]

/-! ## Keys -/

/-- Both zeros have the key of zero, and every other number the key of its pattern. -/
theorem priorityKey_of_isNaN_eq_false {x : Binary64} (h : x.isNaN = false) :
    x.priorityKey = if x.magnitude = 0 then 0 else x.orderKey := by
  rw [priorityKey, settle, if_neg (Bool.eq_false_iff.mp h)]
  split
  · rfl
  · rfl

/-- Finite numbers have keys in the order of their values. -/
theorem signedUnits_lt_iff {x y : Binary64} (hx : x.isNaN = false) (hy : y.isNaN = false) :
    x.signedUnits < y.signedUnits ↔ x.priorityKey < y.priorityKey := by
  have hzero : units 0 = 0 := rfl
  have hlt : units x.magnitude < units y.magnitude ↔ x.magnitude < y.magnitude :=
    units_strictMono.lt_iff_lt
  have hgt : units y.magnitude < units x.magnitude ↔ y.magnitude < x.magnitude :=
    units_strictMono.lt_iff_lt
  have hxpos : 0 < units x.magnitude ↔ 0 < x.magnitude := hzero ▸ units_strictMono.lt_iff_lt
  have hypos : 0 < units y.magnitude ↔ 0 < y.magnitude := hzero ▸ units_strictMono.lt_iff_lt
  rw [priorityKey_of_isNaN_eq_false hx, priorityKey_of_isNaN_eq_false hy, signedUnits, signedUnits,
    orderKey, orderKey]
  cases x.negative <;> cases y.negative <;> simp only [Bool.false_eq_true, if_true, if_false] <;>
    split <;> split <;> omega

theorem magnitude_eq_infinity {x : Binary64} (h : x.isNaN = false)
    (hinfinite : x.isFinite = false) : x.magnitude = infinity :=
  Nat.le_antisymm (Nat.le_of_not_lt (of_decide_eq_false h))
    (Nat.le_of_not_lt (of_decide_eq_false hinfinite))

/-- An infinity is at one end of the keys of numbers. -/
theorem priorityKey_of_infinite {x : Binary64} (h : x.isNaN = false)
    (hinfinite : x.isFinite = false) :
    x.priorityKey = if x.negative then -1 - (infinity : Int) else infinity := by
  rw [priorityKey_of_isNaN_eq_false h, orderKey, magnitude_eq_infinity h hinfinite]
  rfl

/-- Finite numbers have keys between those of the infinities. -/
theorem priorityKey_of_isFinite {x : Binary64} (h : x.isNaN = false) (hfinite : x.isFinite = true) :
    -1 - (infinity : Int) < x.priorityKey ∧ x.priorityKey < infinity := by
  have hlt : x.magnitude < infinity := of_decide_eq_true hfinite
  rw [priorityKey_of_isNaN_eq_false h, orderKey]
  split <;> try split
  all_goals omega

/-- Numbers have keys in the order of their values. -/
theorem value_lt_iff {x y : Binary64} (hx : x.isNaN = false) (hy : y.isNaN = false) :
    x.value < y.value ↔ x.priorityKey < y.priorityKey := by
  have hends : -1 - (infinity : Int) < infinity := by decide
  cases hxfinite : x.isFinite <;> cases hyfinite : y.isFinite
  · rw [priorityKey_of_infinite hx hxfinite, priorityKey_of_infinite hy hyfinite, value, value,
      hxfinite, hyfinite]
    cases x.negative <;> cases y.negative <;> simp [hends, hends.le]
  · obtain ⟨hlow, hhigh⟩ := priorityKey_of_isFinite hy hyfinite
    rw [priorityKey_of_infinite hx hxfinite, value, value, hxfinite, hyfinite]
    cases x.negative <;> simp [hlow, hhigh.le]
  · obtain ⟨hlow, hhigh⟩ := priorityKey_of_isFinite hx hxfinite
    rw [priorityKey_of_infinite hy hyfinite, value, value, hxfinite, hyfinite]
    cases y.negative <;> simp [-WithBot.coe_top, hlow.le, hhigh]
  · rw [value, value, if_pos hxfinite, if_pos hyfinite, WithBot.coe_lt_coe, WithTop.coe_lt_coe,
      toRat_lt_iff, signedUnits_lt_iff hx hy]

theorem value_eq_iff {x y : Binary64} (hx : x.isNaN = false) (hy : y.isNaN = false) :
    x.value = y.value ↔ x.priorityKey = y.priorityKey := by
  rw [le_antisymm_iff, le_antisymm_iff, ← not_lt, ← not_lt, ← not_lt, ← not_lt,
    value_lt_iff hx hy, value_lt_iff hy hx]

/-! ## Patterns that are no numbers -/

theorem toNat_bits_ofMagnitude {negative : Bool} {magnitude : Nat} (h : magnitude < signBit) :
    (ofMagnitude negative magnitude).bits.toNat =
      (if negative then signBit else 0) + magnitude := by
  refine UInt64.toNat_ofNat_of_lt' ?_
  have hsize : UInt64.size = 2 * signBit := rfl
  split <;> omega

theorem negative_ofMagnitude {negative : Bool} {magnitude : Nat} (h : magnitude < signBit) :
    (ofMagnitude negative magnitude).negative = negative := by
  rw [Binary64.negative, toNat_bits_ofMagnitude h]
  cases negative with
  | true => exact decide_eq_true (Nat.le_add_right _ _)
  | false => exact decide_eq_false (by rw [if_neg Bool.false_ne_true]; omega)

/-- There is room for the quiet bit where it is missing. -/
theorem magnitude_add_quietBit_lt {x : Binary64} (h : x.magnitude / quietBit % 2 = 0) :
    x.magnitude + quietBit < signBit := by
  have hlt : x.magnitude < signBit := Nat.mod_lt _ (by decide)
  rw [quietBit] at h ⊢
  rw [signBit] at hlt ⊢
  omega

/-- What is no number keeps its sign when it is settled, and stays above infinity. -/
theorem settle_of_isNaN {x : Binary64} (h : x.isNaN = true) :
    x.settle.negative = x.negative ∧ infinity < x.settle.magnitude := by
  have hmagnitude : infinity < x.magnitude := of_decide_eq_true h
  rw [settle, if_pos h]
  split
  · rename_i hquiet
    have hlt := magnitude_add_quietBit_lt hquiet
    rw [negative_ofMagnitude hlt, magnitude_ofMagnitude hlt]
    exact ⟨rfl, hmagnitude.trans_le (Nat.le_add_right _ _)⟩
  · exact ⟨rfl, hmagnitude⟩

theorem priorityKey_of_isNaN {x : Binary64} (h : x.isNaN = true) :
    if x.negative then x.priorityKey < -1 - (infinity : Int) else infinity < x.priorityKey := by
  obtain ⟨hnegative, hmagnitude⟩ := settle_of_isNaN h
  rw [priorityKey, orderKey, hnegative]
  split <;> omega

/-- Keys of numbers lie between those of the infinities, which are keys of numbers. -/
theorem priorityKey_bounds {x : Binary64} (h : x.isNaN = false) :
    -1 - (infinity : Int) ≤ x.priorityKey ∧ x.priorityKey ≤ infinity := by
  cases hfinite : x.isFinite with
  | true =>
    obtain ⟨hlow, hhigh⟩ := priorityKey_of_isFinite h hfinite
    exact ⟨hlow.le, hhigh.le⟩
  | false =>
    rw [priorityKey_of_infinite h hfinite]
    split <;> omega

/-! ## Settled patterns -/

/-- The bits of a pattern with the sign taken off zero and the quiet bit of a NaN set. -/
def settledBits (x : Binary64) : UInt64 :=
  if x.isNaN then x.bits ||| 0x0008000000000000
  else if x.bits = 0x8000000000000000 then 0
  else x.bits

theorem or_two_pow (n k : Nat) : n ||| 2 ^ k = if n / 2 ^ k % 2 = 0 then n + 2 ^ k else n := by
  have hlow : (n ||| 2 ^ k) % 2 ^ k = n % 2 ^ k := by
    rw [Nat.or_mod_two_pow, Nat.mod_self, Nat.or_zero]
  have hhigh : (n ||| 2 ^ k) / 2 ^ k = n / 2 ^ k ||| 1 := by
    rw [Nat.or_div_two_pow, Nat.div_self (Nat.two_pow_pos k)]
  have hhalf : (n / 2 ^ k ||| 1) / 2 = n / 2 ^ k / 2 := by
    exact (Nat.or_div_two_pow (n := 1)).trans (Nat.or_zero _)
  have hodd : (n / 2 ^ k ||| 1) % 2 = 1 := by
    rw [show (n / 2 ^ k ||| 1) % 2 = n / 2 ^ k % 2 ||| 1 from Nat.or_mod_two_pow (n := 1)]
    rcases Nat.mod_two_eq_zero_or_one (n / 2 ^ k) with h | h <;> rw [h] <;> rfl
  have hjoined := Nat.div_add_mod (n ||| 2 ^ k) (2 ^ k)
  have hparts := Nat.div_add_mod n (2 ^ k)
  rw [hlow, hhigh] at hjoined
  split
  · have hquotient : (n / 2 ^ k ||| 1) = n / 2 ^ k + 1 := by omega
    rw [hquotient, Nat.mul_add_one] at hjoined
    omega
  · have hquotient : (n / 2 ^ k ||| 1) = n / 2 ^ k := by omega
    rw [hquotient] at hjoined
    omega

/-- Settling a pattern takes the sign off zero and sets the quiet bit of a NaN.  It changes no other
bit. -/
theorem bits_settle (x : Binary64) : x.settle.bits = x.settledBits := by
  have hbits := toNat_bits x
  have hlt : x.magnitude < signBit := Nat.mod_lt _ (by decide)
  rw [settle, settledBits]
  split
  · refine UInt64.toNat_inj.mp ?_
    have hquiet : x.magnitude / quietBit % 2 = x.bits.toNat / 2 ^ 51 % 2 := by
      rw [magnitude, quietBit, signBit]
      omega
    rw [UInt64.toNat_or, show (0x0008000000000000 : UInt64).toNat = 2 ^ 51 from rfl, or_two_pow,
      ← hquiet]
    split
    · rename_i hzero
      rw [toNat_bits_ofMagnitude (magnitude_add_quietBit_lt hzero), hbits, Nat.add_assoc]
      rfl
    · rfl
  · by_cases hzero : x.magnitude = 0
    · rw [if_pos hzero]
      split
      · rfl
      · rename_i hsign
        rw [hzero, Nat.add_zero] at hbits
        split at hbits
        · exact absurd (UInt64.toNat_inj.mp hbits) hsign
        · exact (UInt64.toNat_inj.mp hbits).symm
    · have hsign : x.bits ≠ 0x8000000000000000 := fun h => hzero (by rw [magnitude, h]; rfl)
      rw [if_neg hzero, if_neg hsign]

theorem settle_eq_iff {x y : Binary64} : x.settle = y.settle ↔ x.settledBits = y.settledBits := by
  rw [← bits_settle, ← bits_settle]
  refine ⟨congrArg bits, fun h => ?_⟩
  cases hx : x.settle
  cases hy : y.settle
  rw [hx, hy] at h
  exact congrArg mk h

end Binary64

namespace Comparator

variable {α : Type}

/-! ## Total preorders -/

/-- The answers of a comparator are those of a total preorder. -/
structure TotalPreorder (cmp : Comparator α) : Prop where
  mirror : ∀ a b, cmp a b = (cmp b a).swap
  total : ∀ a b, cmp a b ≠ .gt ∨ cmp b a ≠ .gt
  trans : ∀ a b c, cmp a b ≠ .gt → cmp b c ≠ .gt → cmp a c ≠ .gt
  less_eq_greater : ∀ a b, cmp.less a b = cmp.greater b a

theorem totalPreorder_of_transCmp (cmp : Comparator α) [Std.TransCmp cmp] : cmp.TotalPreorder := by
  have hmirror : ∀ a b, cmp a b = (cmp b a).swap := fun a b => Std.OrientedCmp.eq_swap
  refine ⟨hmirror, fun a b => ?_, fun a b c hab hbc => ?_, fun a b => ?_⟩
  · rw [hmirror a b]
    cases cmp b a <;> decide
  · exact Ordering.isLE_iff_ne_gt.mp (Std.TransCmp.isLE_trans (Ordering.isLE_iff_ne_gt.mpr hab)
      (Ordering.isLE_iff_ne_gt.mpr hbc))
  · rw [less, greater, hmirror a b]
    cases cmp b a <;> rfl

/-- Turning a comparator around any number of times keeps it consistent. -/
theorem transCmp_reverse_iterate (cmp : Comparator α) [Std.TransCmp cmp] (turns : Nat) :
    Std.TransCmp (reverse^[turns] cmp) := by
  induction turns with
  | zero => exact inferInstanceAs (Std.TransCmp cmp)
  | succ turns ih =>
    rw [Function.iterate_succ_apply']
    exact Std.TransCmp.opposite

end Comparator

namespace Event

variable {π : Type}

/-! ## The rank of events -/

theorem rank_eq_lt_iff {a b : Event π} :
    rank a b = .lt ↔ a.priority.priorityKey < b.priority.priorityKey ∨
      a.priority.priorityKey = b.priority.priorityKey ∧ a.timestamp < b.timestamp := by
  simp only [rank, compareLex, compareOn, Ordering.then_eq_lt, Std.compare_eq_lt,
    Std.LawfulEqCmp.compare_eq_iff_eq]

theorem rank_eq_eq_iff {a b : Event π} :
    rank a b = .eq ↔
      a.priority.priorityKey = b.priority.priorityKey ∧ a.timestamp = b.timestamp := by
  simp only [rank, compareLex, compareOn, Ordering.then_eq_eq, Std.LawfulEqCmp.compare_eq_iff_eq]

/-- An event whose priority is no number ranks outside all those with numbers, on the side that its
sign says. -/
theorem rank_of_isNaN {a b : Event π} (ha : a.priority.isNaN = true)
    (hb : b.priority.isNaN = false) :
    rank a b = if a.priority.negative then .lt else .gt := by
  obtain ⟨hlow, hhigh⟩ := Binary64.priorityKey_bounds hb
  have hout := Binary64.priorityKey_of_isNaN ha
  split
  · rename_i hnegative
    rw [if_pos hnegative] at hout
    exact rank_eq_lt_iff.mpr (.inl (by omega))
  · rename_i hpositive
    rw [if_neg hpositive] at hout
    rw [Std.OrientedCmp.gt_iff_lt]
    exact rank_eq_lt_iff.mpr (.inl (by omega))

/-- The rank of events is a total preorder whatever their priorities, and so is the rank turned
around any number of times, where turning around twice changes nothing.  Events whose priorities are
numbers rank by the values of these, and then by time.  A priority that is no number ranks below all
numbers, the infinities included, if its sign bit is set, and above all of them otherwise.  Two
events rank equal only if they have the same time and their priorities the same bits, once the sign
is taken off zero and NaNs are quieted. -/
theorem laws_of_rank :
    (∀ turns : Nat, (Comparator.reverse^[turns] (rank : Comparator (Event π))).TotalPreorder) ∧
    (∀ cmp : Comparator (Event π), cmp.reverse.reverse = cmp) ∧
    (∀ a b : Event π, a.priority.isNaN = false → b.priority.isNaN = false →
      (rank a b = .lt ↔ a.priority.value < b.priority.value ∨
        a.priority.value = b.priority.value ∧ a.timestamp < b.timestamp) ∧
      (rank a b = .eq ↔ a.priority.value = b.priority.value ∧ a.timestamp = b.timestamp)) ∧
    (∀ a b : Event π, a.priority.isNaN = true → b.priority.isNaN = false →
      rank a b = if a.priority.negative then .lt else .gt) ∧
    ∀ a b : Event π, rank a b = .eq ↔
      a.timestamp = b.timestamp ∧ a.priority.settledBits = b.priority.settledBits := by
  refine ⟨fun turns => ?_, fun cmp => rfl, fun a b ha hb => ⟨?_, ?_⟩,
    fun a b ha hb => rank_of_isNaN ha hb, fun a b => ?_⟩
  · have := Comparator.transCmp_reverse_iterate (rank : Comparator (Event π)) turns
    exact Comparator.totalPreorder_of_transCmp _
  · rw [rank_eq_lt_iff, Binary64.value_lt_iff ha hb, Binary64.value_eq_iff ha hb]
  · rw [rank_eq_eq_iff, Binary64.value_eq_iff ha hb]
  · rw [rank_eq_iff, key, key, Prod.mk.injEq, and_comm, Binary64.settle_eq_iff]

/-- A negative zero, a signalling NaN with its sign bit set and the same NaN quieted, the other
zero. -/
theorem laws_of_rank_signallingNaN :
    let zero : Event Unit := ⟨⟨0⟩, 7, ()⟩
    let negativeZero : Event Unit := ⟨⟨0x8000000000000000⟩, 7, ()⟩
    let signalling : Event Unit := ⟨⟨0xfff0000000000001⟩, 9, ()⟩
    let quiet : Event Unit := ⟨⟨0xfff8000000000001⟩, 9, ()⟩
    let infinite : Event Unit := ⟨⟨0xfff0000000000000⟩, 3, ()⟩
    zero.priority.value = negativeZero.priority.value ∧ rank zero negativeZero = .eq ∧
      rank signalling infinite = .lt ∧ rank signalling quiet = .eq ∧
      ((Comparator.reverse^[3] rank) infinite quiet).swap =
        (Comparator.reverse^[3] rank) quiet infinite := by
  intro zero negativeZero signalling quiet infinite
  obtain ⟨hlaws, -, hnumbers, hnans, hequal⟩ := laws_of_rank (π := Unit)
  have hvalue := (Binary64.value_eq_iff (x := zero.priority) (y := negativeZero.priority)
    (by decide) (by decide)).mpr (by decide)
  have hrank := hnans signalling infinite (by decide) (by decide)
  refine ⟨hvalue, ?_, hrank, (hequal signalling quiet).mpr (by decide), ?_⟩
  · exact (hnumbers zero negativeZero (by decide) (by decide)).2.mpr ⟨hvalue, rfl⟩
  · exact ((hlaws 3).mirror quiet infinite).symm

end Event

end PrioritySampling
