import Mathlib.Data.List.Forall2
import MappingGraph.Text.Blank

/-!
# Blanks and letters

Trimming takes blanks away at the two ends of a text and nothing else (`Text.exists_trimChars`).  The
letters and digits of ASCII are no blanks, so that none of them is lost
(`Text.filter_isAlphanum_trimChars`).  Making letters small forgets whether they were, and this is
all it forgets (`Text.spells_iff`).
-/

set_option autoImplicit false

namespace MappingGraph.Text

variable {cs : List Char} {c : Char}

/-- What trimming takes away is blank. -/
theorem exists_trimChars (cs : List Char) : ∃ front back, cs = front ++ trimChars cs ++ back ∧
    (∀ c ∈ front, isBlank c = true) ∧ ∀ c ∈ back, isBlank c = true := by
  have hall : ∀ ds : List Char, ∀ c ∈ ds.takeWhile isBlank, isBlank c = true := fun _ ↦
    List.all_eq_true.mp List.all_takeWhile
  have hback : ∀ ds : List Char, ds = dropBlankEnd ds ++ (ds.reverse.takeWhile isBlank).reverse :=
    fun ds ↦ by
      rw [dropBlankEnd, ← List.reverse_append, List.takeWhile_append_dropWhile, List.reverse_reverse]
  refine ⟨cs.takeWhile isBlank, ((cs.dropWhile isBlank).reverse.takeWhile isBlank).reverse, ?_,
    hall cs, fun c hc ↦ hall _ c (List.mem_reverse.mp hc)⟩
  rw [trimChars, List.append_assoc, ← hback, List.takeWhile_append_dropWhile]

theorem trimChars_infix (cs : List Char) : trimChars cs <:+: cs := by
  obtain ⟨front, back, h, -, -⟩ := exists_trimChars cs
  exact ⟨front, back, h.symm⟩

/-- Trimming leaves alone what neither begins nor ends with a blank. -/
theorem trimChars_eq_self (hhead : ∀ c ∈ cs.head?, isBlank c = false)
    (hlast : ∀ c ∈ cs.getLast?, isBlank c = false) : trimChars cs = cs := by
  have hdrop : ∀ {ds : List Char}, (∀ c ∈ ds.head?, isBlank c = false) →
      ds.dropWhile isBlank = ds := fun {ds} h ↦ by
    cases ds with
    | nil => rfl
    | cons c ds => exact List.dropWhile_cons_of_neg (Bool.eq_false_iff.mp (h c rfl))
  rw [trimChars, hdrop hhead, dropBlankEnd, hdrop (by rwa [List.head?_reverse]),
    List.reverse_reverse]

/-! ## Letters and digits of ASCII -/

theorem isUpper_iff : c.isUpper = true ↔ 65 ≤ c.toNat ∧ c.toNat ≤ 90 := by
  show decide ('A'.val ≤ c.val ∧ c.val ≤ 'Z'.val) = true ↔ _
  rw [decide_eq_true_iff, UInt32.le_iff_toNat_le, UInt32.le_iff_toNat_le]
  rfl

theorem isLower_iff : c.isLower = true ↔ 97 ≤ c.toNat ∧ c.toNat ≤ 122 := by
  show (decide ('a'.val ≤ c.val) && decide (c.val ≤ 'z'.val)) = true ↔ _
  rw [Bool.and_eq_true, decide_eq_true_iff, decide_eq_true_iff, UInt32.le_iff_toNat_le,
    UInt32.le_iff_toNat_le]
  rfl

theorem isDigit_iff : c.isDigit = true ↔ 48 ≤ c.toNat ∧ c.toNat ≤ 57 := Char.isDigit_iff_toNat

theorem isAlphanum_iff :
    c.isAlphanum = true ↔ c.isUpper = true ∨ c.isLower = true ∨ c.isDigit = true := by
  show (c.isUpper || c.isLower || c.isDigit) = true ↔ _
  rw [Bool.or_eq_true, Bool.or_eq_true, or_assoc]

theorem toNat_toLower (h : c.isUpper = true) : c.toLower.toNat = c.toNat + 32 := by
  have hrange := isUpper_iff.mp h
  have hlower : c.toLower = _ := dif_pos (of_decide_eq_true h)
  rw [hlower]
  show (c.toNat + 32) % 2 ^ 32 = c.toNat + 32
  omega

theorem toLower_of_not_isUpper (h : c.isUpper = false) : c.toLower = c :=
  dif_neg (of_decide_eq_false h)

theorem isLower_toLower (h : c.isUpper = true) : c.toLower.isLower = true := by
  have hrange := isUpper_iff.mp h
  rw [isLower_iff, toNat_toLower h]
  omega

theorem toNat_toUpper (h : c.isLower = true) : c.toUpper.toNat = c.toNat - 32 := by
  have hrange := isLower_iff.mp h
  have hlower : 'a'.val ≤ c.val ∧ c.val ≤ 'z'.val := by
    rwa [UInt32.le_iff_toNat_le, UInt32.le_iff_toNat_le]
  have hupper : c.toUpper = _ := dif_pos hlower
  have hback : ('A'.val - 'a'.val).toNat = 2 ^ 32 - 32 := by decide
  rw [hupper]
  show (c.val + ('A'.val - 'a'.val)).toNat = c.toNat - 32
  rw [UInt32.toNat_add, hback, Char.toNat_val]
  omega

/-- Two letters become a small letter when they are made small. -/
theorem toLower_eq_iff {w : Char} (h : w.isLower = true) :
    c.toLower = w ↔ c = w ∨ c = w.toUpper := by
  have hrange := isLower_iff.mp h
  by_cases hc : c.isUpper = true
  · have hupper := isUpper_iff.mp hc
    rw [← Char.toNat_inj, ← Char.toNat_inj, ← Char.toNat_inj, toNat_toLower hc, toNat_toUpper h]
    omega
  · rw [toLower_of_not_isUpper (Bool.not_eq_true _ ▸ hc), or_iff_left]
    rintro rfl
    rw [isUpper_iff, toNat_toUpper h] at hc
    omega

/-- The word, each letter of it small or not. -/
def Spells (word : String) (cs : List Char) : Prop :=
  List.Forall₂ (fun w c ↦ c = w ∨ c = w.toUpper) word.toList cs

theorem spells_iff {word : String} (h : ∀ w ∈ word.toList, w.isLower = true) :
    Spells word cs ↔ cs.map Char.toLower = word.toList := by
  rw [Spells]
  generalize word.toList = ws at h
  induction ws generalizing cs with
  | nil => rw [List.forall₂_nil_left_iff, List.map_eq_nil_iff]
  | cons w ws ih =>
    have hw := h w List.mem_cons_self
    rw [List.forall₂_cons_left_iff, List.map_eq_cons_iff]
    constructor
    · rintro ⟨c, ds, hc, hds, rfl⟩
      exact ⟨c, ds, rfl, (toLower_eq_iff hw).mpr hc,
        (ih fun x hx ↦ h x (List.mem_cons_of_mem w hx)).mp hds⟩
    · rintro ⟨c, ds, rfl, hc, hds⟩
      exact ⟨c, ds, (toLower_eq_iff hw).mp hc,
        (ih fun x hx ↦ h x (List.mem_cons_of_mem w hx)).mpr hds, rfl⟩

theorem not_isBlank_of_isAlphanum (h : c.isAlphanum = true) : isBlank c = false := by
  rw [isAlphanum_iff, isUpper_iff, isLower_iff, isDigit_iff] at h
  simp only [isBlank, Bool.or_eq_false_iff, Bool.and_eq_false_iff, decide_eq_false_iff_not,
    beq_eq_false_iff_ne]
  omega

/-- No letter and no digit is trimmed away. -/
theorem filter_isAlphanum_trimChars (cs : List Char) :
    (trimChars cs).filter Char.isAlphanum = cs.filter Char.isAlphanum := by
  obtain ⟨front, back, hcs, hfront, hback⟩ := exists_trimChars cs
  have hnil : ∀ {ds : List Char}, (∀ c ∈ ds, isBlank c = true) → ds.filter Char.isAlphanum = [] :=
    fun h ↦ List.filter_eq_nil_iff.mpr fun c hc halnum ↦
      Bool.false_ne_true ((not_isBlank_of_isAlphanum halnum).symm.trans (h c hc))
  conv_rhs => rw [hcs]
  rw [List.filter_append, List.filter_append, hnil hfront, hnil hback, List.nil_append,
    List.append_nil]

end MappingGraph.Text
