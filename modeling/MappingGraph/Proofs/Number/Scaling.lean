import MappingGraph.Json.Basic
import MappingGraph.Proofs.Number.Rounding

/-!
# Which decimals are scaled

`Binary64.scaled?` rounds after each step, so a decimal that is not too large might still be refused
on the way.  It is not if it is at most `Binary64.lastMiddle`, half a step below the largest number
(`Binary64.exists_scaled?`).  The steps keep the order, and so it is enough to look at the largest
decimal of each power of ten.
-/

set_option autoImplicit false

namespace MappingGraph.Binary64

open Ratio

variable {x y z : Binary64} {j k m n : Nat}

theorem den_magnitude_pos (x : Binary64) : 0 < x.magnitude.den := den_scaled_pos two_pos

theorem exists_ofNat?_of_le (h : m ≤ n) (hy : ofNat? n = some y) :
    ∃ x, ofNat? m = some x ∧ x.size ≤ y.size := by
  refine exists_ofRatio?_of_le Nat.one_pos Nat.one_pos ?_ hy
  rw [value, value]
  exact div_le_div_of_nonneg_right (Nat.cast_le.mpr h) (Nat.cast_nonneg _)

theorem pow_ten_mono (hjk : j ≤ k) : Nat.pow 10 j ≤ Nat.pow 10 k :=
  Nat.pow_le_pow_right (Nat.succ_pos 9) hjk

theorem exists_of_times? (h : x.times? k = some z) : ∃ p, ofNat? (Nat.pow 10 k) = some p ∧
    ofRatio? x.negative (x.magnitude.mul p.magnitude) = some z :=
  Option.bind_eq_some_iff.mp h

theorem exists_times?_of_le (hxy : x.size ≤ y.size) (hjk : j ≤ k) (hz : y.times? k = some z) :
    ∃ w, x.times? j = some w ∧ w.size ≤ z.size := by
  obtain ⟨q, hq, hz⟩ := exists_of_times? hz
  obtain ⟨p, hp, hpq⟩ := exists_ofNat?_of_le (pow_ten_mono hjk) hq
  rw [times?, hp]
  refine exists_ofRatio?_of_le (Nat.mul_pos x.den_magnitude_pos p.den_magnitude_pos)
    (Nat.mul_pos y.den_magnitude_pos q.den_magnitude_pos) ?_ hz
  rw [value_mul, value_mul]
  exact mul_le_mul hxy hpq p.size_nonneg y.size_nonneg

/-! ## Multiplying -/

/-- The middle between the largest number and the one below it. -/
def lastMiddle : Nat := (Nat.pow 2 54 - 3) * Nat.pow 2 (maxExponent - 1).toNat

theorem lastMiddle_lt_pow (hk : 308 < k) : lastMiddle < Nat.pow 10 k := by
  obtain ⟨j, hj, hpow⟩ : ∃ j < 310, lastMiddle < Nat.pow 10 j := by decide +kernel
  exact hpow.trans_le (pow_ten_mono (by omega))

/-- The largest integer of 64 bits whose product with `10 ^ k` is not beyond that. -/
def largestFactor (k : Nat) : Nat := min Number.maxInteger.toNat (lastMiddle / Nat.pow 10 k)

theorem isSome_times?_largestFactor : ∀ k < 21,
    ((ofNat? (largestFactor (288 + k))).bind (times? · (288 + k))).isSome = true := by
  decide +kernel

/-- An integer of 64 bits is multiplied by a power of ten if the product is not too large. -/
theorem exists_times?_ofNat? (hn : n ≤ Number.maxInteger) (hk : k ≤ 308)
    (h : n * 10 ^ k ≤ lastMiddle) :
    ∃ x z, ofNat? n = some x ∧ x.times? k = some z := by
  have hn : n ≤ Number.maxInteger.toNat := (Int.le_toNat (by decide)).mpr hn
  -- up to `10 ^ 288` any integer of 64 bits will do
  obtain ⟨j, hj, hkj, hfactor⟩ : ∃ j < 21, k ≤ 288 + j ∧ n ≤ largestFactor (288 + j) := by
    rcases Nat.le_total k 288 with hsmall | hlarge
    · have hall : Number.maxInteger.toNat ≤ largestFactor 288 := by decide +kernel
      exact ⟨0, by decide, hsmall, hn.trans hall⟩
    · obtain ⟨j, rfl⟩ := Nat.exists_eq_add_of_le hlarge
      refine ⟨j, by omega, le_refl _, Nat.le_min.mpr ⟨hn, ?_⟩⟩
      exact (Nat.le_div_iff_mul_le (Nat.pow_pos (by decide))).mpr h
  obtain ⟨z, hz⟩ := Option.isSome_iff_exists.mp (isSome_times?_largestFactor j hj)
  obtain ⟨y, hy, hz⟩ := Option.bind_eq_some_iff.mp hz
  obtain ⟨x, hx, hxy⟩ := exists_ofNat?_of_le hfactor hy
  obtain ⟨w, hw, -⟩ := exists_times?_of_le hxy hkj hz
  exact ⟨x, w, hx, hw⟩

/-! ## Dividing -/

/-- The power of two above all integers of 64 bits. -/
def twoPow64 : Binary64 := ⟨false, Nat.pow 2 52, 12⟩

theorem ofNat?_twoPow64 : ofNat? (Nat.pow 2 64) = some twoPow64 := by decide +kernel

theorem exists_ofNat?_pow (hk : k ≤ 308) : ∃ p, ofNat? (Nat.pow 10 k) = some p ∧ 1 ≤ p.size := by
  have hone : ofNat? (Nat.pow 10 0) = some ⟨false, Nat.pow 2 52, -52⟩ := by decide +kernel
  have hzero : 0 * 10 ^ k ≤ lastMiddle := by
    rw [Nat.zero_mul]
    exact Nat.zero_le _
  obtain ⟨_, z, -, hz⟩ := exists_times?_ofNat? (by decide) hk hzero
  obtain ⟨p, hp, -⟩ := exists_of_times? hz
  obtain ⟨x, hx, hxp⟩ := exists_ofNat?_of_le (pow_ten_mono (Nat.zero_le k)) hp
  rw [hone] at hx
  cases hx
  refine ⟨p, hp, le_trans (le_of_eq ?_) hxp⟩
  rw [size_eq]
  norm_num

/-- A quotient by a power of ten is no larger. -/
theorem exists_over?_of_le (hx : x.size ≤ twoPow64.size) (hk : k ≤ 308) :
    ∃ y, x.over? k = some y ∧ y.size ≤ twoPow64.size := by
  obtain ⟨p, hp, hone⟩ := exists_ofNat?_pow hk
  rw [over?, hp]
  have hden := Nat.mul_pos x.den_magnitude_pos (num_pos (one_pos.trans_le hone))
  refine exists_ofRatio?_of_le hden Nat.one_pos ?_ ofNat?_twoPow64
  have hsize : (⟨Nat.pow 2 64, 1⟩ : Ratio).value = twoPow64.size := by
    rw [size_eq, value, twoPow64]
    norm_num
  rw [value_div, hsize]
  exact (div_le_self x.size_nonneg hone).trans hx

theorem representable_of_over? (hk : k ≤ 308) (h : x.over? k = some y) : y.Representable := by
  obtain ⟨p, hp, hone⟩ := exists_ofNat?_pow hk
  rw [over?, hp] at h
  exact representable_of_ofRatio? (Nat.mul_pos x.den_magnitude_pos
    (num_pos (one_pos.trans_le hone))) h

theorem exists_lowered? {rest : Nat} (hrest : rest ≤ 308) (hx : x.size ≤ twoPow64.size)
    (times : Nat) : ∃ y, x.lowered? rest times = some y := by
  induction times generalizing x with
  | zero =>
    obtain ⟨y, hy, -⟩ := exists_over?_of_le hx hrest
    exact ⟨y, hy⟩
  | succ times ih =>
    rw [lowered?]
    split
    · exact ⟨x, rfl⟩
    · obtain ⟨y, hy, hsize⟩ := exists_over?_of_le hx (le_refl 308)
      rw [hy]
      exact ih hsize

theorem representable_of_lowered? {rest times : Nat} (hrest : rest ≤ 308) (hx : x.Representable)
    (h : x.lowered? rest times = some y) : y.Representable := by
  induction times generalizing x with
  | zero => exact representable_of_over? hrest h
  | succ times ih =>
    rw [lowered?] at h
    split at h
    · cases h
      exact hx
    · obtain ⟨w, hw, h⟩ := Option.bind_eq_some_iff.mp h
      exact ih (representable_of_over? (le_refl 308) hw) h

theorem representable_of_scaled? {e : Int} (h : scaled? n e = some y) : y.Representable := by
  obtain ⟨x, hx, h⟩ := Option.bind_eq_some_iff.mp h
  have hrepresentable : x.Representable := representable_of_ofRatio? Nat.one_pos hx
  dsimp only at h
  split_ifs at h
  · exact representable_of_lowered? (by omega) hrepresentable h
  · obtain ⟨p, hp, h⟩ := exists_of_times? h
    exact representable_of_ofRatio? (Nat.mul_pos x.den_magnitude_pos p.den_magnitude_pos) h
  · cases h
    exact hrepresentable

/-- **A decimal is scaled** if its digits fit 64 bits and it is not too large. -/
theorem exists_scaled? (hn : n ≤ Number.maxInteger) {e : Int} (h : (n : ℚ) * 10 ^ e ≤ lastMiddle) :
    ∃ x, scaled? n e = some x := by
  have hbound : n ≤ Nat.pow 2 64 := by
    have hmax : Number.maxInteger ≤ (Nat.pow 2 64 : Nat) := by decide
    exact_mod_cast hn.trans hmax
  obtain ⟨x, hx, hsize⟩ := exists_ofNat?_of_le hbound ofNat?_twoPow64
  rw [scaled?, hx]
  dsimp only [Option.bind_eq_bind, Option.bind_some]
  split_ifs with hneg hle hzero
  · exact exists_lowered? (by omega) hsize _
  all_goals
    obtain ⟨k, rfl⟩ := Int.eq_ofNat_of_zero_le (Int.not_lt.mp hneg)
    have h : n * 10 ^ k ≤ lastMiddle := by exact_mod_cast h
  · obtain ⟨x', z, hx', hz⟩ := exists_times?_ofNat? hn (by omega) h
    rw [hx] at hx'
    cases hx'
    exact ⟨z, hz⟩
  · exact ⟨x, rfl⟩
  · have hn : n ≠ 0 := by
      rintro rfl
      cases hx
      exact hzero rfl
    have hmul : 10 ^ k ≤ n * 10 ^ k := Nat.le_mul_of_pos_left _ (Nat.pos_of_ne_zero hn)
    exact absurd ((lastMiddle_lt_pow (by omega)).trans_le hmul) (not_lt.mpr h)

end MappingGraph.Binary64
