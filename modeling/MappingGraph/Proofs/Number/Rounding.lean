import Mathlib.Algebra.Order.Field.Basic
import Mathlib.Algebra.Order.Field.Power
import Mathlib.Algebra.Order.Ring.Rat
import Mathlib.Tactic.GCongr
import Mathlib.Tactic.Linarith
import Mathlib.Tactic.Ring
import MappingGraph.Number.Binary64

/-!
# Rounding keeps the order

Fractions of natural numbers are compared here by the rational numbers that they stand for
(`Ratio.value`).  A larger fraction is rounded to a number at least as large, and if it is not too
large for any then a smaller one is not either (`Binary64.exists_ofRatio?_of_le`).

The proof looks at the power of two that the significand counts (`Ratio.place`).  If it is the same
for both fractions, the significands are in order, because `Ratio.roundEven` is monotone.  If it is
smaller for one of them, there is a power of two between the two results.
-/

set_option autoImplicit false

namespace MappingGraph

namespace Ratio

variable {r s : Ratio} {base n : Nat} {e : Int}

/-- The rational number that a fraction stands for. -/
def value (r : Ratio) : ℚ := r.num / r.den

theorem value_scaled (n base : Nat) (e : Int) : (scaled n base e).value = n * (base : ℚ) ^ e := by
  rw [scaled, value]
  split
  · next h =>
    obtain ⟨k, rfl⟩ := Int.eq_ofNat_of_zero_le h
    simp
  · next h =>
    obtain ⟨k, hk⟩ := Int.eq_ofNat_of_zero_le (show 0 ≤ -e by omega)
    obtain rfl : e = -(k : Int) := by omega
    simp [div_eq_mul_inv]

theorem value_divPow (r : Ratio) (base : Nat) (e : Int) :
    (r.divPow base e).value = r.value / (base : ℚ) ^ e := by
  rw [divPow, value, value]
  split
  · next h =>
    obtain ⟨k, rfl⟩ := Int.eq_ofNat_of_zero_le h
    simp [div_div]
  · next h =>
    obtain ⟨k, hk⟩ := Int.eq_ofNat_of_zero_le (show 0 ≤ -e by omega)
    obtain rfl : e = -(k : Int) := by omega
    simp [div_mul_eq_mul_div]

theorem value_mul (r s : Ratio) : (r.mul s).value = r.value * s.value := by
  simp [mul, value, div_mul_div_comm]

theorem value_div (r s : Ratio) : (r.div s).value = r.value / s.value := by
  simp [div, value, div_div_div_eq]

theorem den_scaled_pos (hbase : 0 < base) : 0 < (scaled n base e).den := by
  rw [scaled]
  split
  · exact Nat.one_pos
  · exact Nat.pow_pos hbase

theorem den_divPow_pos (hr : 0 < r.den) (hbase : 0 < base) : 0 < (r.divPow base e).den := by
  rw [divPow]
  split
  · exact Nat.mul_pos hr (Nat.pow_pos hbase)
  · exact hr

theorem value_nonneg (r : Ratio) : 0 ≤ r.value :=
  div_nonneg (Nat.cast_nonneg _) (Nat.cast_nonneg _)

theorem num_pos (h : 0 < r.value) : 0 < r.num := by
  by_contra hzero
  rw [value, Nat.eq_zero_of_not_pos hzero, Nat.cast_zero, zero_div] at h
  exact lt_irrefl 0 h

theorem le_iff (hr : 0 < r.den) (hs : 0 < s.den) : r.le s = true ↔ r.value ≤ s.value := by
  rw [le, decide_eq_true_eq, value, value, div_le_div_iff₀ (by exact_mod_cast hr)
    (by exact_mod_cast hs)]
  exact_mod_cast Iff.rfl

/-! ## The nearest natural number -/

/-- A fraction is rounded to at most `n` if it is below the middle between `n` and the next number,
or if it is the middle and `n` is even. -/
theorem roundEven_le_iff (hr : 0 < r.den) :
    r.roundEven ≤ n ↔ r.value < n + 1 / 2 ∨ r.value = n + 1 / 2 ∧ n % 2 = 0 := by
  have hden : (0 : ℚ) < r.den := Nat.cast_pos.mpr hr
  have hlt : r.value < n + 1 / 2 ↔ 2 * r.num < (2 * n + 1) * r.den := by
    rw [value, div_lt_iff₀ hden, ← mul_lt_mul_iff_right₀ (zero_lt_two' ℚ), ← mul_assoc, mul_add]
    norm_num
    exact_mod_cast Iff.rfl
  have heq : r.value = n + 1 / 2 ↔ 2 * r.num = (2 * n + 1) * r.den := by
    rw [value, div_eq_iff hden.ne', ← mul_right_inj' (two_ne_zero' ℚ), ← mul_assoc, mul_add]
    norm_num
    exact_mod_cast Iff.rfl
  rw [hlt, heq, roundEven, Nat.add_mul, Nat.mul_assoc, Nat.one_mul]
  have hnum := Nat.div_add_mod r.num r.den
  have hrem := Nat.mod_lt r.num hr
  generalize r.num / r.den = q at *
  generalize r.num % r.den = rem at *
  -- only multiples of the denominator are left, and these are in the order of `n` and `q`
  have horder : n < q ∧ n * r.den + r.den ≤ r.den * q ∨ n = q ∧ n * r.den = r.den * q ∨
      q < n ∧ r.den * q + r.den ≤ n * r.den := by
    rcases Nat.lt_trichotomy n q with h | rfl | h
    · exact .inl ⟨h, Nat.succ_mul n _ ▸ Nat.mul_comm q _ ▸ Nat.mul_le_mul_right _ h⟩
    · exact .inr (.inl ⟨rfl, Nat.mul_comm _ _⟩)
    · exact .inr (.inr ⟨h, Nat.mul_comm q _ ▸ Nat.succ_mul q _ ▸ Nat.mul_le_mul_right _ h⟩)
  split_ifs <;> omega

theorem roundEven_mono (hr : 0 < r.den) (hs : 0 < s.den) (h : r.value ≤ s.value) :
    r.roundEven ≤ s.roundEven := by
  rw [roundEven_le_iff hr]
  rcases (roundEven_le_iff hs).mp (le_refl s.roundEven) with hlt | ⟨heq, heven⟩
  · exact .inl (h.trans_lt hlt)
  · exact (heq ▸ h).lt_or_eq.imp_right fun h ↦ ⟨h, heven⟩

theorem roundEven_le (hr : 0 < r.den) (h : r.value ≤ n) : r.roundEven ≤ n :=
  (roundEven_le_iff hr).mpr (.inl (h.trans_lt (lt_add_of_pos_right _ (half_pos one_pos))))

theorem value_le_roundEven (hr : 0 < r.den) : r.value ≤ r.roundEven + 1 / 2 :=
  ((roundEven_le_iff hr).mp (le_refl _)).elim le_of_lt fun h ↦ h.1.le

theorem le_roundEven (hr : 0 < r.den) (h : n ≤ r.value) : n ≤ r.roundEven := by
  by_contra hlt
  have hle : ((r.roundEven + 1 : Nat) : ℚ) ≤ n := Nat.cast_le.mpr (Nat.lt_of_not_le hlt)
  have hvalue := value_le_roundEven hr
  push_cast at hle
  linarith

theorem roundEven_le_value (hr : 0 < r.den) : r.roundEven ≤ r.value + 1 / 2 := by
  cases hround : r.roundEven with
  | zero => exact add_nonneg (by exact_mod_cast r.value_nonneg) (half_pos one_pos).le
  | succ n =>
    have hlt : ¬ r.roundEven ≤ n := hround ▸ Nat.not_succ_le_self n
    rw [roundEven_le_iff hr, not_or, not_lt] at hlt
    push_cast
    linarith [hlt.1]

/-! ## The leading binary digit -/

/-- The leading binary digit of a positive fraction. -/
theorem log2_spec (hr : 0 < r.den) (hnum : 0 < r.num) :
    (2 : ℚ) ^ r.log2 ≤ r.value ∧ r.value < 2 ^ (r.log2 + 1) := by
  have hden : (0 : ℚ) < r.den := Nat.cast_pos.mpr hr
  have hpow (k : Int) : (0 : ℚ) < 2 ^ k := zpow_pos two_pos k
  have hle : le (scaled 1 2 (Nat.log2 r.num - Nat.log2 r.den)) r = true ↔
      (2 : ℚ) ^ ((Nat.log2 r.num : Int) - Nat.log2 r.den) ≤ r.value := by
    rw [le_iff (den_scaled_pos two_pos) hr, value_scaled, Nat.cast_one, one_mul, Nat.cast_two]
  have habove : r.value < 2 ^ ((Nat.log2 r.num : Int) - Nat.log2 r.den + 1) := by
    rw [value, div_lt_iff₀ hden, sub_add_eq_add_sub, zpow_sub₀ two_ne_zero, div_mul_eq_mul_div,
      lt_div_iff₀ (hpow _)]
    exact mul_lt_mul (by exact_mod_cast Nat.lt_log2_self)
      (by exact_mod_cast Nat.log2_self_le hr.ne') (hpow _) (hpow _).le
  have hbelow : (2 : ℚ) ^ ((Nat.log2 r.num : Int) - Nat.log2 r.den - 1) ≤ r.value := by
    rw [value, le_div_iff₀ hden, sub_sub, zpow_sub₀ two_ne_zero, div_mul_eq_mul_div,
      div_le_iff₀ (hpow _)]
    exact mul_le_mul (by exact_mod_cast Nat.log2_self_le hnum.ne')
      (by exact_mod_cast Nat.lt_log2_self.le) hden.le (Nat.cast_nonneg _)
  rw [log2]
  split
  · next h => exact ⟨hle.mp h, habove⟩
  · next h =>
    rw [sub_add_cancel]
    exact ⟨hbelow, not_le.mp fun hvalue ↦ h (hle.mpr hvalue)⟩

end Ratio

namespace Binary64

/-- The size of the number as a rational one. -/
def size (x : Binary64) : ℚ := x.magnitude.value

theorem size_eq (x : Binary64) : x.size = x.significand * 2 ^ x.exponent := by
  rw [size, magnitude, Ratio.value_scaled, Nat.cast_two]

end Binary64

namespace Ratio

variable {r s : Ratio}

/-- The power of two that the significand of a rounded fraction counts. -/
def place (r : Ratio) : Int := max (r.log2 - 52) Binary64.minExponent

/-- How many of these there are in the rounded fraction. -/
def count (r : Ratio) : Nat := (r.divPow 2 r.place).roundEven

theorem value_divPow_place (r : Ratio) : (r.divPow 2 r.place).value = r.value / 2 ^ r.place := by
  rw [value_divPow, Nat.cast_two]

theorem place_mono (hr : 0 < r.den) (hs : 0 < s.den) (hnum : 0 < r.num) (hnum' : 0 < s.num)
    (h : r.value ≤ s.value) : r.place ≤ s.place := by
  have hlt : (2 : ℚ) ^ r.log2 < 2 ^ (s.log2 + 1) :=
    (log2_spec hr hnum).1.trans_lt (h.trans_lt (log2_spec hs hnum').2)
  have hlog := (zpow_lt_zpow_iff_right₀ one_lt_two).mp hlt
  rw [place, place]
  omega

/-- A rounded fraction has at most 53 binary digits … -/
theorem count_le (hr : 0 < r.den) (hnum : 0 < r.num) : r.count ≤ 2 ^ 53 := by
  refine roundEven_le (den_divPow_pos hr two_pos) ?_
  rw [value_divPow_place, div_le_iff₀ (zpow_pos two_pos _)]
  have hplace : (2 : ℚ) ^ (r.log2 + 1) ≤ 2 ^ ((53 : Int) + r.place) :=
    zpow_le_zpow_right₀ one_le_two (by rw [place]; omega)
  have hvalue := (log2_spec hr hnum).2.le.trans hplace
  rw [zpow_add₀ two_ne_zero] at hvalue
  exact_mod_cast hvalue

/-- … and no less unless it counts the smallest power of two. -/
theorem le_count (hr : 0 < r.den) (hnum : 0 < r.num) (hplace : Binary64.minExponent < r.place) :
    2 ^ 52 ≤ r.count := by
  refine le_roundEven (den_divPow_pos hr two_pos) ?_
  rw [value_divPow_place, le_div_iff₀ (zpow_pos two_pos _)]
  have hlog : r.log2 = 52 + r.place := by
    rw [place] at hplace ⊢
    omega
  have hspec := (log2_spec hr hnum).1
  rw [hlog, zpow_add₀ two_ne_zero] at hspec
  exact_mod_cast hspec

end Ratio

namespace Binary64

open Ratio

variable {r s : Ratio} {negative : Bool} {x y : Binary64}

/-- The fraction, rounded; it may be too large for a binary64 number. -/
def rounded (negative : Bool) (r : Ratio) : Binary64 :=
  if r.count = 2 ^ 53 then ⟨negative, 2 ^ 52, r.place + 1⟩ else ⟨negative, r.count, r.place⟩

theorem ofRatio?_eq (hnum : 0 < r.num) : ofRatio? negative r =
    if (rounded negative r).exponent ≤ maxExponent then some (rounded negative r) else none := by
  rw [ofRatio?, if_neg hnum.ne']
  rfl

theorem size_rounded (negative : Bool) (r : Ratio) :
    (rounded negative r).size = r.count * 2 ^ r.place := by
  rw [size_eq, rounded]
  split
  · next h =>
    rw [h, zpow_add_one₀ two_ne_zero, mul_comm _ 2, ← mul_assoc]
    norm_num
  · rfl

theorem size_nonneg (x : Binary64) : 0 ≤ x.size := value_nonneg _

theorem size_zero (negative : Bool) : (zero negative).size = 0 := by
  rw [size_eq]
  exact zero_mul _

theorem ofRatio?_of_num_eq_zero (hnum : r.num = 0) :
    ofRatio? negative r = some (zero negative) := by
  rw [ofRatio?, if_pos hnum]

theorem place_le_exponent_rounded (negative : Bool) (r : Ratio) :
    r.place ≤ (rounded negative r).exponent := by
  rw [rounded]
  split
  · exact Int.le_add_one (le_refl _)
  · exact le_refl _

theorem exponent_rounded_le (negative : Bool) (r : Ratio) :
    (rounded negative r).exponent ≤ r.place + 1 := by
  rw [rounded]
  split
  · exact le_refl _
  · exact Int.le_add_one (le_refl _)

theorem rounded_mono (negative negative' : Bool) (hr : 0 < r.den) (hs : 0 < s.den)
    (hnum : 0 < r.num) (hnum' : 0 < s.num) (h : r.value ≤ s.value) :
    (rounded negative r).exponent ≤ (rounded negative' s).exponent ∧
      (rounded negative r).size ≤ (rounded negative' s).size := by
  rw [size_rounded, size_rounded]
  rcases (place_mono hr hs hnum hnum' h).lt_or_eq with hplace | hplace
  · -- `2 ^ 52` at the place of the larger one stands between the two
    have hmin : minExponent < s.place := (le_max_right _ _).trans_lt hplace
    have hexponent := (Int.add_one_le_of_lt hplace).trans (place_le_exponent_rounded negative' s)
    refine ⟨(exponent_rounded_le _ r).trans hexponent, ?_⟩
    have hcount : (r.count : ℚ) ≤ 2 ^ 53 := by exact_mod_cast count_le hr hnum
    have hcount' : (2 ^ 52 : ℚ) ≤ s.count := by exact_mod_cast le_count hs hnum' hmin
    calc (r.count : ℚ) * 2 ^ r.place
        ≤ 2 ^ 53 * 2 ^ r.place := by gcongr
      _ = 2 ^ 52 * 2 ^ (r.place + 1) := by rw [zpow_add_one₀ two_ne_zero]; ring
      _ ≤ 2 ^ 52 * 2 ^ s.place := by
        gcongr
        · exact one_le_two
        · exact hplace
      _ ≤ s.count * 2 ^ s.place := by gcongr
  · have hcount : r.count ≤ s.count := by
      refine roundEven_mono (den_divPow_pos hr two_pos) (den_divPow_pos hs two_pos) ?_
      rw [value_divPow_place, value_divPow_place, hplace]
      gcongr
    have hfull : r.count = 2 ^ 53 → s.count = 2 ^ 53 := fun hr ↦
      le_antisymm (count_le hs hnum') (hr ▸ hcount)
    refine ⟨?_, by rw [hplace]; gcongr⟩
    rw [rounded, rounded, hplace]
    split
    · next h => rw [if_pos (hfull h)]
    · exact place_le_exponent_rounded negative' s

/-- **A smaller fraction rounds if a larger one does**, and to a number that is no larger. -/
theorem exists_ofRatio?_of_le {negative' : Bool} (hr : 0 < r.den) (hs : 0 < s.den)
    (h : r.value ≤ s.value) (hy : ofRatio? negative' s = some y) :
    ∃ x, ofRatio? negative r = some x ∧ x.size ≤ y.size := by
  rcases Nat.eq_zero_or_pos r.num with hnum | hnum
  · exact ⟨_, ofRatio?_of_num_eq_zero hnum, (size_zero _).trans_le y.size_nonneg⟩
  · have hvalue : 0 < r.value := div_pos (Nat.cast_pos.mpr hnum) (Nat.cast_pos.mpr hr)
    have hnum' : 0 < s.num := num_pos (hvalue.trans_le h)
    obtain ⟨hexponent, hsize⟩ := rounded_mono negative negative' hr hs hnum hnum' h
    rw [ofRatio?_eq hnum', Option.ite_none_right_eq_some] at hy
    obtain ⟨hle, hy⟩ := hy
    cases hy
    exact ⟨_, (ofRatio?_eq hnum).trans (if_pos (hexponent.trans hle)), hsize⟩

/-! ## Representable numbers -/

/-- The number is in the normal form of binary64. -/
structure Representable (x : Binary64) : Prop where
  significand_lt : x.significand < 2 ^ 53
  le_exponent : minExponent ≤ x.exponent
  exponent_le : x.exponent ≤ maxExponent
  normal : x.exponent = minExponent ∨ 2 ^ 52 ≤ x.significand

theorem representable_zero (negative : Bool) : (zero negative).Representable where
  significand_lt := Nat.two_pow_pos 53
  le_exponent := le_refl _
  exponent_le := show minExponent ≤ maxExponent by decide
  normal := .inl rfl

/-- **What comes of rounding is representable.** -/
theorem representable_of_ofRatio? (hr : 0 < r.den) (h : ofRatio? negative r = some x) :
    x.Representable := by
  rcases Nat.eq_zero_or_pos r.num with hnum | hnum
  · rw [ofRatio?_of_num_eq_zero hnum] at h
    cases h
    exact representable_zero negative
  · rw [ofRatio?_eq hnum, Option.ite_none_right_eq_some] at h
    obtain ⟨hle, h⟩ := h
    cases h
    have hplace : minExponent ≤ r.place := le_max_right _ _
    refine ⟨?_, hplace.trans (place_le_exponent_rounded _ r), hle, ?_⟩
    · rw [rounded]
      split
      · exact Nat.pow_lt_pow_succ one_lt_two
      · next hne => exact (count_le hr hnum).lt_of_ne hne
    · rw [rounded]
      split
      · exact .inr (le_refl _)
      · exact hplace.eq_or_lt.imp Eq.symm (le_count hr hnum)

end Binary64

end MappingGraph
