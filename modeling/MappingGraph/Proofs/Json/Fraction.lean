import MappingGraph.Proofs.Json.Numeral
import MappingGraph.Proofs.Number.Scaling
import MappingGraph.Proofs.Number.Shortest

/-!
# Reading fractional numbers

A text is read by its digits before and after the point and its exponent (`Draft.numeral`,
`Draft.IsNumeral.readNumber_numeral`).  The digits that do not fit 64 bits any more are left out, so
what is scaled is at most the decimal that is written, and it is read if this is not too large
(`Draft.exists_fractional?`).  That the decimal of a representable number is not too large follows
from `Binary64.shortest_spec`, except for the largest numbers, whose texts are read here.  So the
text of a representable number is read as a number, though perhaps another one
(`Number.Representable.readable`).
-/

set_option autoImplicit false

namespace MappingGraph

namespace Draft

open Text

variable {cs rest whole frac left taken : List Char} {m n : Nat} {negative : Bool}
  {exp : Option Int}

/-! ## The digits of a number -/

theorem le_ofDigitChars (n : Nat) (cs : List Char) : n ≤ Nat.ofDigitChars 10 cs n := by
  rw [Nat.ofDigitChars_eq_ofDigitChars_zero]
  exact Nat.le_add_right_of_le (Nat.le_mul_of_pos_left n (Nat.pow_pos (by decide)))

/-- All digits are added if the result fits 64 bits. -/
theorem addDigits_of_le (h : Nat.ofDigitChars 10 cs n ≤ Number.maxInteger) :
    addDigits n cs = (Nat.ofDigitChars 10 cs n, []) := by
  induction cs generalizing n with
  | nil => rfl
  | cons c cs ih =>
    have hfits : 10 * n + digitValue c ≤ Number.maxInteger :=
      (Int.ofNat_le.mpr (le_ofDigitChars _ cs)).trans h
    rw [addDigits]
    exact (if_pos hfits).trans (ih h)

/-- The digits that were added stand in front of the others. -/
theorem exists_of_addDigits (hn : n ≤ Number.maxInteger) (h : addDigits n cs = (m, left)) :
    m ≤ Number.maxInteger ∧ ∃ taken, cs = taken ++ left ∧ m = Nat.ofDigitChars 10 taken n := by
  induction cs generalizing n with
  | nil =>
    cases h
    exact ⟨hn, [], rfl, rfl⟩
  | cons c cs ih =>
    rw [addDigits] at h
    split at h
    · next hfits =>
      obtain ⟨hm, taken, rfl, rfl⟩ := ih hfits h
      exact ⟨hm, c :: taken, rfl, rfl⟩
    · cases h
      exact ⟨hn, [], rfl, rfl⟩

/-- The number that is written by digits before and after the point and an exponent. -/
def decimal (whole frac : List Char) (exp : Int) : ℚ :=
  digitsValue (whole ++ frac) * 10 ^ (exp - frac.length)

/-- **A decimal that is not too large is read**, if not all its digits stand before the point. -/
theorem exists_fractional? {exp : Int} (hdigits : ∀ c ∈ whole, c.isDigit = true)
    (hlength : whole.length ≤ 19) (hexp : exp ≤ maxExponent)
    (h : decimal whole frac exp ≤ Binary64.lastMiddle) :
    ∃ x, fractional? whole frac exp = some x := by
  have hwhole : digitsValue whole ≤ Number.maxInteger := by
    have hlt := (digitsValue_lt hdigits).le.trans (Nat.pow_le_pow_right (by decide) hlength)
    exact (Int.ofNat_le.mpr hlt).trans (by decide)
  have htaken : addDigits 0 whole = (digitsValue whole, []) := addDigits_of_le hwhole
  cases hfrac : addDigits (digitsValue whole) frac with
  | mk m left =>
    obtain ⟨hm, taken, rfl, hvalue⟩ := exists_of_addDigits hwhole hfrac
    have hm' : m = digitsValue (whole ++ taken) := hvalue.trans (Nat.ofDigitChars_append 0).symm
    rw [fractional?, htaken]
    dsimp only
    rw [hfrac]
    dsimp only
    split_ifs with hsmall hzero
    · refine Binary64.exists_scaled? hm ?_
      have hplace : exp + (([] : List Char).length : Int) -
          (((taken ++ left).length - left.length : Nat) : Int) =
          left.length + (exp - (taken ++ left).length) := by
        rw [List.length_append, List.length_nil]
        omega
      rw [hplace, zpow_add₀ (by norm_num), ← mul_assoc, hm']
      refine le_trans ?_ h
      rw [decimal, ← List.append_assoc, digitsValue_append (whole ++ taken)]
      gcongr
      exact_mod_cast Nat.le_add_right _ _
    · exact ⟨_, rfl⟩
    · simp only [Bool.or_eq_true, decide_eq_true_eq, not_or] at hzero
      omega

/-! ## The parts of a number -/

/-- The text of a number: its digits before the point, those after it if there are any, and its
exponent. -/
def numeral (whole frac : List Char) (exp : Option Int) : List Char :=
  whole ++ (point frac ++ exponent exp)
where
  point : List Char → List Char
    | [] => []
    | c :: cs => '.' :: c :: cs
  exponent : Option Int → List Char
    | none => []
    | some e => 'e' :: (if e < 0 then '-' else '+') :: natDigits e.natAbs

theorem numeral_of_ne_nil (h : frac ≠ []) (whole : List Char) (exp : Option Int) :
    numeral whole frac exp = whole ++ '.' :: (frac ++ numeral.exponent exp) := by
  obtain ⟨c, cs, rfl⟩ := List.exists_cons_of_ne_nil h
  rfl

/-- There are digits before the point, and no zero in front of others. -/
structure IsNumeral (whole frac : List Char) : Prop where
  ne_nil : whole ≠ []
  leading : ∀ c cs, whole ≠ '0' :: c :: cs
  whole : ∀ c ∈ whole, c.isDigit = true
  frac : ∀ c ∈ frac, c.isDigit = true

theorem takeWhile_digits_append {tail : List Char} (h : ∀ c ∈ cs, c.isDigit = true)
    (htail : tail.takeWhile Char.isDigit = []) :
    (cs ++ tail).takeWhile Char.isDigit = cs ∧ (cs ++ tail).dropWhile Char.isDigit = tail := by
  have hdrop : tail.dropWhile Char.isDigit = tail := by
    conv => rhs; rw [← tail.takeWhile_append_dropWhile (p := Char.isDigit), htail]
    rfl
  rw [List.takeWhile_append_of_pos h, List.dropWhile_append_of_pos h, htail, hdrop, List.append_nil]
  exact ⟨rfl, rfl⟩

theorem readExponent_exponent (negative : Bool) (whole frac : List Char) (exp : Option Int) :
    readExponent negative whole frac (numeral.exponent exp) =
      (numberOf negative whole frac exp, []) := by
  cases exp with
  | none => rfl
  | some e =>
    have hsign : exponentSign ((if e < 0 then '-' else '+') :: natDigits e.natAbs) =
        (if e < 0 then -1 else 1, natDigits e.natAbs) := by
      split <;> rfl
    have hall : ∀ c ∈ natDigits e.natAbs, c.isDigit = true := fun _ ↦ isDigit_of_mem_natDigits
    obtain ⟨htake, hdrop⟩ := takeWhile_digits_append hall List.takeWhile_nil
    rw [List.append_nil] at htake hdrop
    have hvalue : (if e < 0 then -1 else 1) * (e.natAbs : Int) = e := by
      split <;> omega
    rw [numeral.exponent, readExponent_of_e rfl, hsign]
    dsimp only
    rw [htake, hdrop, digitsValue_natDigits, hvalue, if_neg]
    exact mt List.isEmpty_iff.mp (natDigits_ne_nil _)

theorem takeWhile_exponent (exp : Option Int) :
    (numeral.exponent exp).takeWhile Char.isDigit = [] := by
  cases exp <;> rfl

theorem readFraction_point (hfrac : ∀ c ∈ frac, c.isDigit = true) :
    readFraction negative whole (numeral.point frac ++ numeral.exponent exp) =
      (numberOf negative whole frac exp, []) := by
  cases frac with
  | nil =>
    rw [numeral.point, List.nil_append, readFraction.eq_2, readExponent_exponent]
    intro ds h
    cases exp <;> cases h
  | cons c cs =>
    obtain ⟨htake, hdrop⟩ := takeWhile_digits_append hfrac (takeWhile_exponent exp)
    rw [numeral.point, List.cons_append, readFraction, htake, hdrop, List.isEmpty_cons,
      if_neg Bool.false_ne_true, readExponent_exponent]

theorem IsNumeral.readNumber_eq (h : IsNumeral whole frac) :
    readNumber negative (numeral whole frac exp) = (numberOf negative whole frac exp, []) := by
  have htail : (numeral.point frac ++ numeral.exponent exp).takeWhile Char.isDigit = [] := by
    cases frac with
    | nil => exact takeWhile_exponent exp
    | cons => rfl
  obtain ⟨htake, hdrop⟩ := takeWhile_digits_append h.whole htail
  rw [readNumber, numeral, htake, hdrop]
  split
  · exact absurd rfl h.ne_nil
  · exact absurd rfl (h.leading _ _)
  · exact readFraction_point h.frac

/-- **A number is read by its parts.**  With a point or an exponent it is fractional. -/
theorem IsNumeral.readNumber_numeral (h : IsNumeral whole frac)
    (hpoint : frac = [] → exp.isSome = true) {x : Binary64}
    (hx : fractional? whole frac (exp.getD 0) = some x) :
    readNumber negative (numeral whole frac exp) =
      (number (.fractional { x with negative }), []) := by
  have hinteger : (frac.isEmpty && exp.isNone) = false := by
    cases frac with
    | nil => rw [List.isEmpty_nil, Bool.true_and, ← Option.not_isSome, hpoint rfl, Bool.not_true]
    | cons => rfl
  rw [h.readNumber_eq, numberOf, hx]
  simp only [hinteger, Bool.false_and, Bool.false_eq_true, if_false]

theorem isDigit_of_mem_zeros (n : Nat) : ∀ c ∈ List.replicate n '0', c.isDigit = true := by
  intro c hc
  rw [List.eq_of_mem_replicate hc]
  rfl

/-- Digits and a power of ten as the parts of a number. -/
structure Parts (ds : List Char) (k : Int) (whole frac : List Char) (exp : Option Int) : Prop where
  isNumeral : IsNumeral whole frac
  length_le : whole.length ≤ 19
  point : frac = [] → exp.isSome = true
  exp_le : exp.getD 0 ≤ max 0 (k + ds.length - 1)
  decimal_eq : decimal whole frac (exp.getD 0) = digitsValue ds * 10 ^ k

section Parts

variable {ds : List Char} {k : Int} (hne : ds ≠ []) (hdigits : ∀ c ∈ ds, c.isDigit = true)
  (hzero : ∀ es, ds ≠ '0' :: es)

include hne hdigits in
/-- The digits stand behind the point, after some zeros. -/
theorem parts_behind (hleading : k + ds.length - 1 < 0) :
    Parts ds k ['0'] (List.replicate (-(k + ds.length - 1) - 1).toNat '0' ++ ds) none where
  isNumeral :=
    { ne_nil := nofun
      leading := nofun
      whole := List.forall_mem_singleton.mpr rfl
      frac := List.forall_mem_append.mpr ⟨isDigit_of_mem_zeros _, hdigits⟩ }
  length_le := by decide
  point h := absurd (List.append_eq_nil_iff.mp h).2 hne
  exp_le := le_max_left _ _
  decimal_eq := by
    have hzeros := digitsValue_append_replicate [] (-(k + ds.length - 1) - 1).toNat
    rw [List.nil_append] at hzeros
    have hvalue : digitsValue (['0'] ++
        (List.replicate (-(k + ds.length - 1) - 1).toNat '0' ++ ds)) = digitsValue ds := by
      rw [digitsValue_append, digitsValue_append (List.replicate _ _), hzeros]
      simp [digitsValue, digitValue]
    rw [decimal, hvalue, List.length_append, List.length_replicate]
    congr 2
    rw [Option.getD_none]
    omega

include hne hdigits hzero in
/-- The digits stand in front of the point, before some zeros. -/
theorem parts_before (hleading : k + ds.length - 1 ≤ 15) (hk : 0 ≤ k) :
    Parts ds k (ds ++ List.replicate k.toNat '0') ['0'] none where
  isNumeral :=
    { ne_nil := fun h ↦ hne (List.append_eq_nil_iff.mp h).1
      leading := fun c cs h ↦ by
        obtain ⟨d, es, rfl⟩ := List.exists_cons_of_ne_nil hne
        exact hzero es (congrArg (· :: es) (List.cons.inj h).1)
      whole := List.forall_mem_append.mpr ⟨hdigits, isDigit_of_mem_zeros _⟩
      frac := List.forall_mem_singleton.mpr rfl }
  length_le := by
    rw [List.length_append, List.length_replicate]
    omega
  point := nofun
  exp_le := le_max_left _ _
  decimal_eq := by
    obtain ⟨n, rfl⟩ := Int.eq_ofNat_of_zero_le hk
    have hplace : (none : Option Int).getD 0 - (['0'].length : Int) = -1 := rfl
    have hlast : digitsValue ['0'] = 0 := rfl
    rw [decimal, digitsValue_append, Int.toNat_natCast, digitsValue_append_replicate, hplace, hlast,
      zpow_neg_one, zpow_natCast]
    push_cast
    rw [add_zero, List.length_singleton, pow_one, mul_inv_cancel_right₀ (by norm_num)]

include hdigits hzero in
/-- The point stands among the digits. -/
theorem parts_around (hleading : 0 ≤ k + ds.length - 1) (hle : k + ds.length - 1 ≤ 15)
    (hk : k < 0) :
    Parts ds k (ds.take (k + ds.length - 1 + 1).toNat) (ds.drop (k + ds.length - 1 + 1).toNat)
      none where
  isNumeral :=
    { ne_nil := fun h ↦ by
        rcases List.take_eq_nil_iff.mp h with h | rfl
        · omega
        · rw [List.length_nil] at hleading
          omega
      leading := fun c cs h ↦
        hzero _ ((List.take_append_drop _ ds).symm.trans (congrArg (· ++ List.drop _ ds) h))
      whole := fun c hc ↦ hdigits c (List.mem_of_mem_take hc)
      frac := fun c hc ↦ hdigits c (List.mem_of_mem_drop hc) }
  length_le := by
    rw [List.length_take]
    omega
  point h := by
    rw [List.drop_eq_nil_iff] at h
    omega
  exp_le := le_max_left _ _
  decimal_eq := by
    rw [decimal, List.take_append_drop, List.length_drop]
    congr 2
    rw [Option.getD_none]
    omega

include hdigits in
/-- The point stands after the first digit. -/
theorem parts_scientific {d : Char} {es : List Char} (hds : ds = d :: es) :
    Parts ds k [d] es (some (k + ds.length - 1)) where
  isNumeral :=
    { ne_nil := nofun
      leading := nofun
      whole := List.forall_mem_singleton.mpr (hdigits d (hds ▸ List.mem_cons_self))
      frac := fun c hc ↦ hdigits c (hds ▸ List.mem_cons_of_mem d hc) }
  length_le := by
    rw [List.length_singleton]
    decide
  point _ := rfl
  exp_le := le_max_right _ _
  decimal_eq := by
    rw [decimal, List.singleton_append, ← hds]
    congr 2
    rw [Option.getD_some, hds, List.length_cons]
    omega

end Parts

end Draft

namespace Binary64

open Draft

variable {x : Binary64} {ds whole frac : List Char} {k : Int} {exp : Option Int}

theorem exists_parts (hx : x.significand ≠ 0) (hshortest : x.shortest = (ds, k))
    (hne : ds ≠ []) (hdigits : ∀ c ∈ ds, c.isDigit = true) (hzero : ∀ es, ds ≠ '0' :: es) :
    ∃ whole frac exp, Parts ds k whole frac exp ∧
      x.text.toList = (if x.negative then ['-'] else []) ++ numeral whole frac exp := by
  have hsign (s : String) : (if x.negative then "-" ++ s else s).toList =
      (if x.negative then ['-'] else []) ++ s.toList := by
    split
    · exact String.toList_append
    · rfl
  rw [text, hshortest]
  dsimp only
  rw [hsign, if_neg hx]
  generalize (if x.negative then ['-'] else []) = sign
  split_ifs with hsmall hmiddle hk
  · rw [Bool.and_eq_true, decide_eq_true_eq, decide_eq_true_eq] at hsmall
    refine ⟨_, _, _, parts_behind hne hdigits hsmall.2, ?_⟩
    rw [numeral_of_ne_nil (mt List.append_eq_nil_iff.mp fun h ↦ hne h.2)]
    simp [numeral.exponent]
  · rw [Bool.and_eq_true, decide_eq_true_eq, decide_eq_true_eq] at hmiddle
    refine ⟨_, _, _, parts_before hne hdigits hzero hmiddle.2 hk, ?_⟩
    rw [numeral_of_ne_nil (List.cons_ne_nil _ _)]
    simp [numeral.exponent]
  · rw [Bool.and_eq_true, decide_eq_true_eq, decide_eq_true_eq] at hmiddle
    have hparts := parts_around hdigits hzero hmiddle.1 hmiddle.2 (Int.not_le.mp hk)
    refine ⟨_, _, _, hparts, ?_⟩
    rw [numeral_of_ne_nil fun h ↦ by cases hparts.point h]
    simp [numeral.exponent]
  all_goals
    obtain ⟨d, es, rfl⟩ := List.exists_cons_of_ne_nil hne
    refine ⟨_, _, _, parts_scientific hdigits rfl, ?_⟩
    rw [numeral, numeral.exponent]
  · next hneg =>
    rw [if_pos hneg]
    cases es <;> simp [numeral.point, Text.natText]
  · next hneg =>
    rw [if_neg hneg]
    cases es <;> simp [numeral.point, Text.natText]

/-- The exponent of a decimal is that of its leading digit. -/
theorem leading_le (hne : ds ≠ []) (hdigits : ∀ c ∈ ds, c.isDigit = true)
    (hzero : ∀ es, ds ≠ '0' :: es) (hle : Text.digitsValue ds * (10 : ℚ) ^ k ≤ lastMiddle) :
    k + ds.length - 1 ≤ 308 := by
  have hds := Text.natDigits_digitsValue hne hdigits fun es h ↦ absurd h (hzero es)
  have hpos : 0 < Text.digitsValue ds := by
    refine Nat.pos_of_ne_zero fun h ↦ ?_
    rw [h] at hds
    exact hzero [] hds.symm
  obtain ⟨l, hl, hpow⟩ := Text.exists_length_natDigits hpos
  rw [hds] at hl
  have hlow : (10 : ℚ) ^ ((l : Int) + k) ≤ lastMiddle := by
    refine le_trans ?_ hle
    rw [zpow_add₀ (by norm_num), zpow_natCast]
    gcongr
    exact_mod_cast hpow
  by_contra hgt
  obtain ⟨e, he⟩ := Int.eq_ofNat_of_zero_le (show 0 ≤ l + k by omega)
  rw [he, zpow_natCast] at hlow
  have hlt := lastMiddle_lt_pow (show 308 < e by omega)
  exact absurd (by exact_mod_cast hlow) (not_le.mpr hlt)

/-- The text of the number is, after its sign, read as a number. -/
def IsRead (x : Binary64) : Prop :=
  ∃ cs y, x.text.toList = (if x.negative then ['-'] else []) ++ cs ∧
    readNumber x.negative cs = (.number (.fractional y), [])

/-- The text of a number that is not too large is read. -/
theorem isRead_of_le (hx : x.significand ≠ 0) (hbits : x.significand < 2 ^ 53)
    (h : x.upperEnd.value ≤ lastMiddle) : x.IsRead := by
  cases hshortest : x.shortest with
  | mk ds k =>
    obtain ⟨hne, hzero, hle⟩ := shortest_spec hx hbits hshortest
    have hdigits : ∀ c ∈ ds, c.isDigit = true := fun c hc ↦
      isDigit_of_mem_shortest (x := x) (by rwa [hshortest])
    have hle := hle.trans h
    have hleading := leading_le hne hdigits hzero hle
    obtain ⟨whole, frac, exp, hparts, htext⟩ := exists_parts hx hshortest hne hdigits hzero
    obtain ⟨y, hy⟩ := exists_fractional? hparts.isNumeral.whole hparts.length_le
      (hparts.exp_le.trans (max_le (by decide) (hleading.trans (by decide))))
      (hparts.decimal_eq.trans_le hle)
    exact ⟨_, _, htext, hparts.isNumeral.readNumber_numeral hparts.point hy⟩

/-! ## Representable numbers -/

/-- The largest number of a sign. -/
def largest (negative : Bool) : Binary64 := ⟨negative, Nat.pow 2 53 - 1, maxExponent⟩

theorem cast_lastMiddle : (lastMiddle : ℚ) = (2 ^ 54 - 3) * 2 ^ (maxExponent - 1) := by
  have hsteps : ((Nat.pow 2 54 - 3 : Nat) : ℚ) = 2 ^ 54 - 3 := by norm_num
  have hpow (k : Nat) : ((Nat.pow 2 k : Nat) : ℚ) = 2 ^ (k : Int) := by
    rw [zpow_natCast]
    exact Nat.cast_pow 2 k
  rw [lastMiddle, Nat.cast_mul, hsteps, hpow, Int.toNat_of_nonneg (by decide)]

/-- The others keep to the middle below it. -/
theorem Representable.upperEnd_le (h : x.Representable) (hne : x ≠ largest x.negative) :
    x.upperEnd.value ≤ lastMiddle := by
  have hstep : (0 : ℚ) < 2 ^ (x.exponent - 1) := zpow_pos two_pos _
  rw [value_upperEnd, cast_lastMiddle]
  rcases h.exponent_le.lt_or_eq with hlt | heq
  · have hbits : (x.significand : ℚ) + 1 ≤ 2 ^ 53 := by exact_mod_cast h.significand_lt
    have hstep' : (2 : ℚ) ^ (x.exponent - 1) * 2 ≤ 2 ^ (maxExponent - 1) := by
      rw [← zpow_add_one₀ two_ne_zero]
      exact zpow_le_zpow_right₀ one_le_two (by omega)
    have hmul := mul_le_mul_of_nonneg_right hbits hstep.le
    linarith
  · have hne : x.significand ≠ 2 ^ 53 - 1 := fun hbits ↦ hne <| by
      obtain ⟨negative, significand, exponent⟩ := x
      cases hbits
      cases heq
      rfl
    have hbits : x.significand + 2 ≤ 2 ^ 53 := by
      have hlt := h.significand_lt
      omega
    have hbits : (x.significand : ℚ) + 2 ≤ 2 ^ 53 := by exact_mod_cast hbits
    rw [heq] at hstep ⊢
    have hmul := mul_le_mul_of_nonneg_right hbits hstep.le
    linarith

theorem isRead_zero (negative : Bool) : (zero negative).IsRead := by
  have htext : (zero negative).text.toList =
      (if negative then ['-'] else []) ++ numeral ['0'] ['0'] none := by
    cases negative <;> decide +kernel
  have hnumeral : IsNumeral ['0'] ['0'] :=
    ⟨nofun, nofun, List.forall_mem_singleton.mpr rfl, List.forall_mem_singleton.mpr rfl⟩
  have hread : fractional? ['0'] ['0'] ((none : Option Int).getD 0) = some (zero false) := by
    decide +kernel
  exact ⟨_, _, htext, hnumeral.readNumber_numeral nofun hread⟩

theorem isRead_largest (negative : Bool) : (largest negative).IsRead := by
  have htext : (largest negative).text.toList = (if negative then ['-'] else []) ++
      numeral ['1'] "7976931348623157".toList (some 308) := by
    cases negative <;> decide +kernel
  have hnumeral : IsNumeral ['1'] "7976931348623157".toList :=
    ⟨nofun, nofun, List.forall_mem_singleton.mpr rfl, List.all_eq_true.mp rfl⟩
  have hread : fractional? ['1'] "7976931348623157".toList ((some 308 : Option Int).getD 0) =
      some (largest false) := by
    decide +kernel
  exact ⟨_, _, htext, hnumeral.readNumber_numeral nofun hread⟩

theorem Representable.eq_zero (h : x.Representable) (hzero : x.significand = 0) :
    x = zero x.negative := by
  have hexponent := h.normal.resolve_right (by omega)
  obtain ⟨negative, significand, exponent⟩ := x
  cases hzero
  cases hexponent
  rfl

/-- **The text of a representable number is read.** -/
theorem Representable.isRead (h : x.Representable) : x.IsRead := by
  by_cases hzero : x.significand = 0
  · rw [h.eq_zero hzero]
    exact isRead_zero _
  by_cases hlargest : x = largest x.negative
  · rw [hlargest]
    exact isRead_largest _
  · exact isRead_of_le hzero h.significand_lt (h.upperEnd_le hlargest)

end Binary64

namespace Draft

theorem exists_isDigit_of_readNumber {negative : Bool} {cs left : List Char} {n : Number}
    (h : readNumber negative cs = (.number n, left)) : ∃ c ds, cs = c :: ds ∧ c.isDigit = true := by
  cases cs with
  | nil => cases (Prod.mk.inj h).1
  | cons c ds =>
    refine ⟨c, ds, rfl, ?_⟩
    by_contra hc
    rw [readNumber, List.takeWhile_cons_of_neg hc] at h
    cases (Prod.mk.inj h).1

end Draft

namespace Number

/-- The number is one of 64 bits. -/
def Representable : Number → Prop
  | integer i => minInteger ≤ i ∧ i ≤ maxInteger
  | fractional x => x.Representable

/-- **The text of a representable number is read as a number.** -/
theorem Representable.readable {n : Number} (h : n.Representable) : n.Readable := by
  cases n with
  | integer i => exact (readsBack_iff.mp (readsBack_integer h.1 h.2)).1
  | fractional x =>
    obtain ⟨cs, y, htext, hread⟩ := Binary64.Representable.isRead h
    refine readable_of_ofText? (m := .fractional y) ?_
    have hvalue : Draft.readValue (4 * x.text.toList.length + 4) x.text.toList =
        (.number (.fractional y), []) := by
      rw [htext]
      cases hnegative : x.negative with
      | true =>
        rw [hnegative] at hread
        exact (Draft.readValue_cons rfl _ cs).trans hread
      | false =>
        rw [hnegative] at hread
        obtain ⟨c, ds, rfl, hc⟩ := Draft.exists_isDigit_of_readNumber hread
        exact (Draft.readValue_of_isDigit hc _ ds).trans hread
    rw [Json.ofText?, text, Decoder.ofText?_eq hvalue]
    rfl

end Number

end MappingGraph
