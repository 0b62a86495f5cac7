import Mathlib.Algebra.Ring.Nat
import Mathlib.Data.List.Induction
import MappingGraph.Text.Numeral

/-!
# Reading back what was written

The digits of a number denote that number, so no two numbers are written alike.  The other way round
digits without a leading zero are those of the number they denote (`Text.natDigits_digitsValue`), so
a number is written in one way only.

A text is read as a number exactly if the number is written there, a sign apart, and is in the range
that is asked for (`Text.naturalBelow?_eq_some_iff`, `Text.integerWithin?_eq_some_iff`).
-/

set_option autoImplicit false

namespace MappingGraph.Text

@[simp] theorem digitsValue_natDigits (n : Nat) : digitsValue (natDigits n) = n :=
  Nat.ofDigitChars_ten_toDigits

theorem isDigit_of_mem_natDigits {c : Char} {n : Nat} (h : c ∈ natDigits n) : c.isDigit = true :=
  Nat.isDigit_of_mem_toDigits (by omega) (by omega) h

theorem natDigits_ne_nil (n : Nat) : natDigits n ≠ [] := Nat.toDigits_ne_nil

theorem natDigits_injective {m n : Nat} (h : natDigits m = natDigits n) : m = n := by
  rw [← digitsValue_natDigits m, h, digitsValue_natDigits]

/-- The digits of a number are read as that number. -/
theorem digits?_natDigits (n : Nat) : digits? (natDigits n) = some n := by
  have hne : (natDigits n).isEmpty = false := by
    rw [List.isEmpty_eq_false_iff]
    exact natDigits_ne_nil n
  have hall : (natDigits n).all Char.isDigit = true :=
    List.all_eq_true.mpr fun _ ↦ isDigit_of_mem_natDigits
  rw [digits?, hne, hall, digitsValue_natDigits]
  rfl

/-- Only zero is written with a leading zero. -/
theorem eq_nil_of_natDigits_eq {n : Nat} {cs : List Char} (h : natDigits n = '0' :: cs) :
    cs = [] := by
  induction n using Nat.strongRecOn generalizing cs with
  | _ n ih =>
    rw [natDigits, Nat.toDigits_eq_if (by omega)] at h
    split at h
    · exact (List.cons.inj h).2.symm
    · next hge =>
      -- the digits in front of the last one are those of a smaller number
      cases hd : natDigits (n / 10) with
      | nil => exact absurd hd (natDigits_ne_nil _)
      | cons d ds =>
        rw [← natDigits, hd, List.cons_append] at h
        have hds : ds = [] := ih (n / 10) (by omega) ((List.cons.inj h).1 ▸ hd)
        have hzero : n / 10 = 0 := by
          refine natDigits_injective (hd.trans ?_)
          rw [(List.cons.inj h).1, hds]
          rfl
        omega

/-! ## One way to write a number -/

theorem digitsValue_concat (cs : List Char) (c : Char) :
    digitsValue (cs ++ [c]) = 10 * digitsValue cs + digitValue c := by
  rw [digitsValue, List.foldl_append]
  rfl

theorem digitValue_lt {c : Char} (h : c.isDigit = true) : digitValue c < 10 := by
  have hle : c.toNat ≤ 57 := (Char.isDigit_iff_toNat.mp h).2
  have hzero : '0'.toNat = 48 := rfl
  rw [digitValue]
  omega

theorem digitChar_digitValue {c : Char} (h : c.isDigit = true) : (digitValue c).digitChar = c := by
  have hle : 48 ≤ c.toNat := (Char.isDigit_iff_toNat.mp h).1
  have hzero : '0'.toNat = 48 := rfl
  rw [← Char.toNat_inj, Nat.toNat_digitChar_of_lt_ten (digitValue_lt h), digitValue]
  omega

/-- **A number has one written form**: digits without a leading zero are those of the number. -/
theorem natDigits_digitsValue {cs : List Char} (hne : cs ≠ []) (hall : ∀ c ∈ cs, c.isDigit = true)
    (hzero : ∀ ds, cs = '0' :: ds → ds = []) : natDigits (digitsValue cs) = cs := by
  induction cs using List.reverseRecOn with
  | nil => exact absurd rfl hne
  | append_singleton cs c ih =>
    have hc := hall c (List.mem_append_right _ List.mem_cons_self)
    have hlt := digitValue_lt hc
    rw [digitsValue_concat, natDigits, Nat.toDigits_eq_if (by omega)]
    cases cs with
    | nil =>
      have hnil : digitsValue [] = 0 := rfl
      rw [hnil, Nat.mul_zero, Nat.zero_add, if_pos hlt, digitChar_digitValue hc]
      rfl
    | cons d ds =>
      have hd : d ≠ '0' := by
        rintro rfl
        have hnil := hzero (ds ++ [c]) rfl
        simp at hnil
      have hfront : natDigits (digitsValue (d :: ds)) = d :: ds :=
        ih (List.cons_ne_nil d ds) (fun e he ↦ hall e (List.mem_append_left _ he))
          fun _ h ↦ absurd (List.cons.inj h).1 hd
      have hpos : digitsValue (d :: ds) ≠ 0 := by
        intro h
        rw [h] at hfront
        exact hd (List.cons.inj hfront).1.symm
      have hdiv : (10 * digitsValue (d :: ds) + digitValue c) / 10 = digitsValue (d :: ds) := by
        omega
      have hmod : (10 * digitsValue (d :: ds) + digitValue c) % 10 = digitValue c := by omega
      rw [if_neg (by omega), hdiv, hmod, ← natDigits, hfront, digitChar_digitValue hc]

/-! ## Digits and zeros -/

theorem digitsValue_append (cs ds : List Char) :
    digitsValue (cs ++ ds) = digitsValue cs * 10 ^ ds.length + digitsValue ds := by
  change Nat.ofDigitChars 10 (cs ++ ds) 0 = Nat.ofDigitChars 10 cs 0 * _ + Nat.ofDigitChars 10 ds 0
  rw [Nat.ofDigitChars_append, Nat.ofDigitChars_eq_ofDigitChars_zero, Nat.mul_comm]

theorem digitsValue_append_replicate (cs : List Char) (zeros : Nat) :
    digitsValue (cs ++ List.replicate zeros '0') = digitsValue cs * 10 ^ zeros := by
  rw [digitsValue_append, List.length_replicate]
  exact Nat.add_eq_left.mpr Nat.ofDigitChars_replicate_zero

theorem digitsValue_lt {cs : List Char} (h : ∀ c ∈ cs, c.isDigit = true) :
    digitsValue cs < 10 ^ cs.length := by
  induction cs using List.reverseRecOn with
  | nil => exact Nat.one_pos
  | append_singleton cs c ih =>
    have hlast := digitValue_lt (h c (List.mem_append_right _ List.mem_cons_self))
    have hfront := ih fun d hd ↦ h d (List.mem_append_left _ hd)
    rw [digitsValue_concat, List.length_append, List.length_singleton, Nat.pow_succ]
    omega

theorem lt_pow_length_natDigits (n : Nat) : n < 10 ^ (natDigits n).length :=
  (Nat.length_toDigits_le_iff (by decide) Nat.length_toDigits_pos).mp (Nat.le_refl _)

/-- The leading digit of a positive number is not zero. -/
theorem exists_length_natDigits {n : Nat} (hn : 0 < n) :
    ∃ l, (natDigits n).length = l + 1 ∧ 10 ^ l ≤ n := by
  obtain ⟨l, hl⟩ : ∃ l, (natDigits n).length = l + 1 :=
    Nat.exists_eq_add_one.mpr Nat.length_toDigits_pos
  refine ⟨l, hl, ?_⟩
  rcases Nat.eq_zero_or_pos l with rfl | hpos
  · exact hn
  · by_contra hlt
    have hle : (natDigits n).length ≤ l :=
      (Nat.length_toDigits_le_iff (by decide) hpos).mpr (Nat.lt_of_not_le hlt)
    omega

/-! ## Reading -/

/-- Digits, at least one, and the number that they denote. -/
structure Digits (cs : List Char) (n : Nat) : Prop where
  ne_nil : cs ≠ []
  isDigit : ∀ c ∈ cs, c.isDigit = true
  value : Nat.ofDigitChars 10 cs 0 = n

theorem digits?_eq_some_iff {cs : List Char} {n : Nat} : digits? cs = some n ↔ Digits cs n := by
  have hread : (!cs.isEmpty && cs.all Char.isDigit) = true ↔
      cs ≠ [] ∧ ∀ c ∈ cs, c.isDigit = true := by
    rw [Bool.and_eq_true, Bool.not_eq_true', List.isEmpty_eq_false_iff, List.all_eq_true]
  constructor
  · intro h
    rw [digits?, Option.ite_none_right_eq_some, hread] at h
    exact ⟨h.1.1, h.1.2, Option.some.inj h.2⟩
  · intro h
    rw [digits?, if_pos (hread.mpr ⟨h.ne_nil, h.isDigit⟩)]
    exact congrArg some h.value

theorem natDigits_of_digits? {cs : List Char} {n : Nat} (h : digits? cs = some n)
    (hzero : ∀ ds, cs = '0' :: ds → ds = []) : natDigits n = cs := by
  have hdigits := digits?_eq_some_iff.mp h
  rw [← hdigits.value]
  exact natDigits_digitsValue hdigits.ne_nil hdigits.isDigit hzero

theorem not_digits_of_sign {sign : Char} {cs : List Char} {n : Nat} (hsign : sign.isDigit = false) :
    ¬ Digits (sign :: cs) n := fun h ↦
  Bool.false_ne_true (hsign.symm.trans (h.isDigit sign List.mem_cons_self))

/-- Digits after a plus sign or none, and the number that they denote. -/
inductive Natural : List Char → Nat → Prop
  | plain {cs : List Char} {n : Nat} (h : Digits cs n) : Natural cs n
  | plus {cs : List Char} {n : Nat} (h : Digits cs n) : Natural ('+' :: cs) n

/-- **A number is read if it is written and below the bound**; it is not wrapped around. -/
theorem naturalBelow?_eq_some_iff {bound n : Nat} {s : String} :
    naturalBelow? bound s = some n ↔ Natural s.toList n ∧ n < bound := by
  rw [naturalBelow?, Option.filter_eq_some_iff, decide_eq_true_iff]
  refine and_congr_left fun _ ↦ ?_
  rw [digits?_eq_some_iff]
  generalize s.toList = text
  split
  · constructor
    · exact .plus
    · rintro (h | h)
      · exact absurd h (not_digits_of_sign rfl)
      · exact h
  · next hplus =>
    constructor
    · exact .plain
    · rintro (h | _)
      · exact h
      · exact absurd rfl (hplus _)

/-- Digits after a sign or none, and the integer that they denote. -/
inductive Numeral : List Char → Int → Prop
  | unsigned {cs : List Char} {n : Nat} (h : Digits cs n) : Numeral cs n
  | plus {cs : List Char} {n : Nat} (h : Digits cs n) : Numeral ('+' :: cs) n
  | minus {cs : List Char} {n : Nat} (h : Digits cs n) : Numeral ('-' :: cs) (-n)

/-- **An integer is read if it is written and in range**; it is not wrapped around. -/
theorem integerWithin?_eq_some_iff {low high i : Int} {s : String} :
    integerWithin? low high s = some i ↔ Numeral s.toList i ∧ low ≤ i ∧ i ≤ high := by
  have hrange : (decide (low ≤ i) && decide (i ≤ high)) = true ↔ low ≤ i ∧ i ≤ high := by
    rw [Bool.and_eq_true, decide_eq_true_iff, decide_eq_true_iff]
  rw [integerWithin?, Option.filter_eq_some_iff, hrange]
  refine and_congr_left fun _ ↦ ?_
  generalize s.toList = text
  split
  · rw [Option.map_eq_some_iff]
    constructor
    · rintro ⟨n, hn, rfl⟩
      exact .plus (digits?_eq_some_iff.mp hn)
    · rintro (h | h)
      · exact absurd h (not_digits_of_sign rfl)
      · exact ⟨_, digits?_eq_some_iff.mpr h, rfl⟩
  · rw [Option.map_eq_some_iff]
    constructor
    · rintro ⟨n, hn, rfl⟩
      exact .minus (digits?_eq_some_iff.mp hn)
    · rintro (h | _ | h)
      · exact absurd h (not_digits_of_sign rfl)
      · exact ⟨_, digits?_eq_some_iff.mpr h, rfl⟩
  · next hplus hminus =>
    rw [Option.map_eq_some_iff]
    constructor
    · rintro ⟨n, hn, rfl⟩
      exact .unsigned (digits?_eq_some_iff.mp hn)
    · rintro (h | _ | _)
      · exact ⟨_, digits?_eq_some_iff.mpr h, rfl⟩
      · exact absurd rfl (hplus _)
      · exact absurd rfl (hminus _)

end MappingGraph.Text
