import Mathlib.Data.List.TakeWhile
import MappingGraph.Proofs.Number.Rounding
import MappingGraph.Proofs.Text.Numeral

/-!
# The shortest decimal

What is known here of the digits that a number is written with: there are some, the first is not
zero, and the decimal that they stand for is at most the upper end of what rounds to the number
(`Binary64.shortest_spec`).  If a grid has a decimal that rounds to the number this is the test for
it.  If none of the grids that are tried has one, the last is so fine that the nearest decimal on it
will do.
-/

set_option autoImplicit false

namespace MappingGraph

namespace Ratio

variable {r s : Ratio}

theorem le_of_lt (hr : 0 < r.den) (hs : 0 < s.den) (h : r.lt s = true) : r.value ≤ s.value :=
  (le_iff hr hs).mp (decide_eq_true (Nat.le_of_lt (of_decide_eq_true h)))

theorem roundEven_eq_or (r : Ratio) :
    r.roundEven = r.num / r.den ∨ r.roundEven = r.num / r.den + 1 := by
  rw [roundEven]
  split_ifs
  · exact .inl rfl
  · exact .inr rfl
  · exact .inl rfl
  · exact .inr rfl

end Ratio

namespace Binary64

open Ratio

variable {x : Binary64} {n : Nat} {k : Int}

theorem value_upperEnd (x : Binary64) :
    x.upperEnd.value = (2 * x.significand + 1) * 2 ^ (x.exponent - 1) := by
  rw [upperEnd, value_scaled]
  push_cast
  rfl

theorem le_upperEnd_of_rounds (h : x.rounds (scaled n 10 k) = true) :
    n * 10 ^ k ≤ x.upperEnd.value := by
  have hten : 0 < (scaled n 10 k).den := den_scaled_pos (by decide)
  have hend : 0 < x.upperEnd.den := den_scaled_pos two_pos
  have hle : (scaled n 10 k).value ≤ x.upperEnd.value := by
    rw [rounds] at h
    split at h
    · exact (le_iff hten hend).mp (Bool.and_eq_true_iff.mp h).2
    · exact le_of_lt hten hend (Bool.and_eq_true_iff.mp h).2
  rwa [value_scaled] at hle

/-- A decimal on a grid is positive and rounds to the number. -/
theorem of_onGrid? (h : x.onGrid? k = some n) : 0 < n ∧ x.rounds (scaled n 10 k) = true := by
  have hhit : ∀ m, (decide (0 < m) && x.rounds (scaled m 10 k)) = true →
      0 < m ∧ x.rounds (scaled m 10 k) = true := fun m hm ↦ by
    rwa [Bool.and_eq_true, decide_eq_true_eq] at hm
  rw [onGrid?] at h
  dsimp only at h
  split at h
  · next hbelow habove =>
    rcases roundEven_eq_or (x.magnitude.divPow 10 k) with heq | heq
    · rw [heq] at h
      cases h
      exact hhit _ hbelow
    · rw [heq] at h
      cases h
      exact hhit _ habove
  · next hbelow _ =>
    cases h
    exact hhit _ hbelow
  · next habove =>
    cases h
    exact hhit _ habove
  · cases h

/-- The decimal was found on its grid, or it is the nearest one on the last grid. -/
theorem firstOnGrid_spec {m tries : Nat} {start : Int} (h : x.firstOnGrid tries start = (m, k)) :
    (0 < m ∧ x.rounds (scaled m 10 k) = true) ∨
      k = start - tries ∧ m = (x.magnitude.divPow 10 k).roundEven := by
  induction tries generalizing start with
  | zero =>
    cases h
    exact .inr ⟨(Int.sub_zero _).symm, rfl⟩
  | succ tries ih =>
    rw [firstOnGrid] at h
    split at h
    · next hgrid =>
      cases h
      exact .inl (of_onGrid? hgrid)
    · exact (ih h).imp_right fun ⟨hk, hm⟩ ↦ ⟨by omega, hm⟩

theorem size_pos (hx : x.significand ≠ 0) : 0 < x.size := by
  rw [size_eq]
  exact mul_pos (Nat.cast_pos.mpr (Nat.pos_of_ne_zero hx)) (zpow_pos two_pos _)

/-- The leading decimal digit stands at most one place below what is taken for it. -/
theorem pow_leadingDecimal_le (hx : x.significand ≠ 0) :
    (10 : ℚ) ^ (x.leadingDecimal - 1) ≤ x.size := by
  obtain ⟨l, hl, hlow⟩ := Text.exists_length_natDigits (num_pos (size_pos hx))
  have hlow : (10 : ℚ) ^ (l : Int) ≤ x.magnitude.num := by exact_mod_cast hlow
  have hhigh : (x.magnitude.den : ℚ) ≤ 10 ^ ((Text.natDigits x.magnitude.den).length : Int) := by
    exact_mod_cast (Text.lt_pow_length_natDigits _).le
  have hden : (0 : ℚ) < x.magnitude.den := Nat.cast_pos.mpr (den_scaled_pos two_pos)
  rw [leadingDecimal, hl, size, value, sub_right_comm, Nat.cast_succ, add_sub_cancel_right,
    zpow_sub₀ (by norm_num)]
  gcongr

/-- **The printed decimal is at most the upper end** of what rounds to the number. -/
theorem firstOnGrid_le_upperEnd (hx : x.significand ≠ 0) (hbits : x.significand < 2 ^ 53) {m : Nat}
    (h : x.firstOnGrid 20 (x.leadingDecimal + 1) = (m, k)) :
    0 < m ∧ m * 10 ^ k ≤ x.upperEnd.value := by
  rcases firstOnGrid_spec h with ⟨hm, hrounds⟩ | ⟨rfl, rfl⟩
  · exact ⟨hm, le_upperEnd_of_rounds hrounds⟩
  -- the last grid has more than `10 ^ 18` steps up to the number
  have hsteps : (10 : ℚ) ^ 18 * 10 ^ (x.leadingDecimal + 1 - (20 : Nat)) ≤ x.size := by
    refine le_trans (le_of_eq ?_) (pow_leadingDecimal_le hx)
    rw [← zpow_natCast, ← zpow_add₀ (by norm_num)]
    congr 1
    push_cast
    ring
  generalize x.leadingDecimal + 1 - (20 : Nat) = k at *
  have hten : (0 : ℚ) < 10 ^ k := zpow_pos (by norm_num) k
  have hden : 0 < (x.magnitude.divPow 10 k).den :=
    den_divPow_pos (den_scaled_pos two_pos) (by decide)
  have hvalue : (x.magnitude.divPow 10 k).value = x.size / 10 ^ k := value_divPow _ _ _
  refine ⟨le_roundEven hden ?_, ?_⟩
  · rw [hvalue, le_div_iff₀ hten]
    push_cast
    linarith
  · have hround := roundEven_le_value hden
    rw [hvalue, ← mul_le_mul_iff_left₀ hten, add_mul, div_mul_cancel₀ _ hten.ne'] at hround
    rw [value_upperEnd]
    rw [size_eq, ← sub_add_cancel x.exponent 1, zpow_add_one₀ two_ne_zero] at hsteps hround
    have hbits : (x.significand : ℚ) ≤ 2 ^ 53 := by exact_mod_cast hbits.le
    have hhalf : (0 : ℚ) < 2 ^ (x.exponent - 1) := zpow_pos two_pos _
    have hmul := mul_le_mul_of_nonneg_right hbits hhalf.le
    linarith

/-- Stripping zeros off the end leaves what they stand behind. -/
theorem exists_replicate_of_strip (cs : List Char) :
    ∃ zeros, cs = (cs.reverse.dropWhile (· == '0')).reverse ++ List.replicate zeros '0' := by
  refine ⟨(cs.reverse.takeWhile (· == '0')).length, ?_⟩
  have hzeros : cs.reverse.takeWhile (· == '0') =
      List.replicate (cs.reverse.takeWhile (· == '0')).length '0' :=
    List.eq_replicate_of_mem fun c hc ↦ eq_of_beq (List.mem_takeWhile_imp (p := (· == '0')) hc)
  rw [← List.reverse_replicate, ← hzeros, ← List.reverse_append, List.takeWhile_append_dropWhile,
    List.reverse_reverse]

theorem shortest_spec (hx : x.significand ≠ 0) (hbits : x.significand < 2 ^ 53) {ds : List Char}
    (h : x.shortest = (ds, k)) :
    ds ≠ [] ∧ (∀ es, ds ≠ '0' :: es) ∧ Text.digitsValue ds * 10 ^ k ≤ x.upperEnd.value := by
  rw [shortest, if_neg hx] at h
  cases hgrid : x.firstOnGrid 20 (x.leadingDecimal + 1) with
  | mk m j =>
    obtain ⟨hm, hle⟩ := firstOnGrid_le_upperEnd hx hbits hgrid
    obtain ⟨zeros, hzeros⟩ := exists_replicate_of_strip (Text.natDigits m)
    rw [hgrid] at h
    dsimp only at h
    obtain ⟨hds, hk⟩ := Prod.mk.inj h
    rw [hds] at hzeros
    have hvalue : m = Text.digitsValue ds * 10 ^ zeros := by
      rw [← Text.digitsValue_natDigits m, hzeros, Text.digitsValue_append_replicate]
    have hk : k = j + zeros := by
      rw [← hk, hds, hzeros, List.length_append, List.length_replicate]
      omega
    refine ⟨?_, ?_, ?_⟩
    · rintro rfl
      rw [hvalue] at hm
      exact absurd hm (by simp [Text.digitsValue])
    · rintro es rfl
      rw [List.cons_append] at hzeros
      rw [Text.eq_nil_of_natDigits_eq hzeros] at hzeros
      have hzero : m = 0 := Text.natDigits_injective hzeros
      exact absurd hzero hm.ne'
    · rw [hk, zpow_add₀ (by norm_num), mul_comm (10 ^ j), ← mul_assoc]
      rw [hvalue] at hle
      exact_mod_cast hle

end Binary64

end MappingGraph
