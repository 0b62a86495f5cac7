import MappingGraph.Hint
import MappingGraph.Proofs.Text.Blank

/-!
# What hint names look like

A hint name is made of words of small letters and digits with one underscore between two of them.
`Hint.Words` is this grammar.  It reads the same from both ends, so that it serves for the name in
the making as well, which has its latest character first: `Hint.Shape` says that so far there is
nothing, or there are words, or words and an underscore that a next word has to justify, and that the
mark for a small letter or digit is never set after an underscore.

Words pass through unchanged, and so every name suggests itself: the names that labels suggest are
just the `Hint.Canonical` ones (`Hint.ofLabel?_canonical`).
-/

set_option autoImplicit false

namespace MappingGraph.Hint

variable {c : Char} {cs : List Char} {s : State}

/-! ## Words -/

/-- A small letter or a digit. -/
def isPlain (c : Char) : Bool := c.isLower || c.isDigit

theorem isPlain_iff : isPlain c = true ↔ c.isLower = true ∨ c.isDigit = true := Bool.or_eq_true_iff

theorem not_isUpper_of_isPlain (h : isPlain c = true) : c.isUpper = false := by
  rw [isPlain_iff, Text.isLower_iff, Text.isDigit_iff] at h
  rw [← Bool.not_eq_true, Text.isUpper_iff]
  omega

theorem ne_underscore_of_isPlain (h : isPlain c = true) : c ≠ '_' := by
  rintro rfl
  cases h

/-- Of the letters and digits all but the capitals are plain. -/
theorem isAlphanum_eq_isPlain (h : c.isUpper = false) : c.isAlphanum = isPlain c := by
  rw [Bool.eq_iff_iff, Text.isAlphanum_iff, isPlain_iff, h]
  simp

/-- Plain characters with one underscore between two of them here and there. -/
inductive Words : List Char → Prop
  | single {c : Char} (hc : isPlain c = true) : Words [c]
  | cons {c : Char} {cs : List Char} (hc : isPlain c = true) (h : Words cs) : Words (c :: cs)
  | gap {c : Char} {cs : List Char} (hc : isPlain c = true) (h : Words cs) : Words (c :: '_' :: cs)

namespace Words

theorem head (h : Words cs) : ∃ c ds, cs = c :: ds ∧ isPlain c = true := by
  cases h with
  | single hc | cons hc | gap hc => exact ⟨_, _, rfl, hc⟩

theorem concat (h : Words cs) (hc : isPlain c = true) : Words (cs ++ [c]) := by
  induction h with
  | single hd => exact .cons hd (.single hc)
  | cons hd _ ih => exact .cons hd ih
  | gap hd _ ih => exact .gap hd ih

theorem concat_gap (h : Words cs) (hc : isPlain c = true) : Words (cs ++ ['_', c]) := by
  induction h with
  | single hd => exact .gap hd (.single hc)
  | cons hd _ ih => exact .cons hd ih
  | gap hd _ ih => exact .gap hd ih

theorem reverse (h : Words cs) : Words cs.reverse := by
  induction h with
  | single hc => exact .single hc
  | cons hc _ ih =>
    rw [List.reverse_cons]
    exact ih.concat hc
  | gap hc _ ih =>
    rw [List.reverse_cons, List.reverse_cons, List.append_assoc]
    exact ih.concat_gap hc

theorem forall_mem (h : Words cs) : ∀ c ∈ cs, isPlain c = true ∨ c = '_' := by
  induction h with
  | single hc => simp [hc]
  | cons hc _ ih => simpa [hc] using ih
  | gap hc _ ih => simpa [hc] using ih

theorem getLast?_ne (h : Words cs) : cs.getLast? ≠ some '_' := by
  obtain ⟨c, ds, hds, hc⟩ := h.reverse.head
  rw [← List.head?_reverse, hds]
  exact fun heq ↦ ne_underscore_of_isPlain hc (Option.some.inj heq)

/-- An underscore can stand before words. -/
theorem not_infix_underscore (h : Words cs) (hsingle : ¬ ['_', '_'] <:+: cs) :
    ¬ ['_', '_'] <:+: '_' :: cs := by
  obtain ⟨c, ds, rfl, hc⟩ := h.head
  intro hinfix
  rcases List.infix_cons_iff.mp hinfix with hprefix | hinfix
  · have hunder := (List.cons_prefix_cons.mp (List.cons_prefix_cons.mp hprefix).2).1
    exact ne_underscore_of_isPlain hc hunder.symm
  · exact hsingle hinfix

/-- No two underscores stand side by side. -/
theorem not_infix (h : Words cs) : ¬ ['_', '_'] <:+: cs := by
  have hcons : ∀ {c : Char} {cs : List Char}, isPlain c = true → ['_', '_'] <:+: c :: cs →
      ['_', '_'] <:+: cs := fun hc hinfix ↦ (List.infix_cons_iff.mp hinfix).resolve_left fun hprefix ↦
    ne_underscore_of_isPlain hc (List.cons_prefix_cons.mp hprefix).1.symm
  induction h with
  | single hc => exact fun hinfix ↦ by simpa using hcons hc hinfix
  | cons hc _ ih => exact fun hinfix ↦ ih (hcons hc hinfix)
  | gap hc h ih => exact fun hinfix ↦ not_infix_underscore h ih (hcons hc hinfix)

end Words

/-- Whatever has none of the faults is made of words. -/
theorem words_of_faultless : ∀ {cs : List Char}, (∀ c ∈ cs, isPlain c = true ∨ c = '_') →
    (∃ c ds, cs = c :: ds ∧ isPlain c = true) → cs.getLast? ≠ some '_' → ¬ ['_', '_'] <:+: cs →
    Words cs
  | [c], _, hhead, _, _ => by
    obtain ⟨_, _, heq, hc⟩ := hhead
    exact .single ((List.cons.inj heq).1 ▸ hc)
  | c :: d :: ds, hall, hhead, hlast, hinfix => by
    obtain ⟨_, _, heq, hc⟩ := hhead
    rw [← (List.cons.inj heq).1] at hc
    have htail : ¬ ['_', '_'] <:+: d :: ds := fun h ↦ hinfix (List.infix_cons h)
    by_cases hd : d = '_'
    · subst hd
      cases ds with
      | nil => exact absurd rfl hlast
      | cons e es =>
        have he : isPlain e = true := (hall e (by simp)).resolve_right fun he ↦
          htail (he ▸ (List.prefix_append ['_', '_'] es).isInfix)
        refine .gap hc (words_of_faultless (fun x hx ↦ hall x (by simp [hx])) ⟨e, es, rfl, he⟩ ?_ ?_)
        · simpa using hlast
        · exact fun h ↦ htail (List.infix_cons h)
    · have hplain : isPlain d = true := (hall d (by simp)).resolve_right hd
      refine .cons hc (words_of_faultless (fun x hx ↦ hall x (List.mem_cons_of_mem c hx))
        ⟨d, ds, rfl, hplain⟩ ?_ htail)
      simpa using hlast

/-! ## A name in the making -/

/-- Nothing, words, or words and an underscore that is still to be justified. -/
inductive Shape : State → Prop
  | start : Shape ⟨[], false⟩
  | words {cs : List Char} {afterLower : Bool} (h : Words cs) : Shape ⟨cs, afterLower⟩
  | gap {cs : List Char} (h : Words cs) : Shape ⟨'_' :: cs, false⟩

theorem Shape.push (h : Shape s) (hc : isPlain c = true) : Words (c :: s.reversed) := by
  cases h with
  | start => exact .single hc
  | words h => exact .cons hc h
  | gap h => exact .gap hc h

theorem step_of_isPlain (s : State) (hc : isPlain c = true) :
    step s c = ⟨c :: s.reversed, true⟩ := by
  have hupper := not_isUpper_of_isPlain hc
  rw [step, hupper, if_neg Bool.false_ne_true, if_pos (isAlphanum_eq_isPlain hupper ▸ hc)]

theorem Shape.step (h : Shape s) (c : Char) : Shape (step s c) := by
  by_cases hupper : c.isUpper = true
  · have hc : isPlain c.toLower = true := isPlain_iff.mpr (.inl (Text.isLower_toLower hupper))
    rw [Hint.step, if_pos hupper]
    cases h with
    | start => exact .words (.single hc)
    | gap h => exact .words (.gap hc h)
    | @words cs afterLower h =>
      cases afterLower with
      | true => exact .words (.gap hc h)
      | false => exact .words (.cons hc h)
  · by_cases hplain : isPlain c = true
    · rw [step_of_isPlain s hplain]
      exact .words (h.push hplain)
    · rw [Bool.not_eq_true] at hupper
      rw [Hint.step, hupper, if_neg Bool.false_ne_true, isAlphanum_eq_isPlain hupper, if_neg hplain]
      cases h with
      | start => exact .start
      | gap h => exact .gap h
      | words h =>
        obtain ⟨d, ds, rfl, hd⟩ := h.head
        have hhead : some d ≠ some '_' := by simpa using ne_underscore_of_isPlain hd
        simpa [hhead] using Shape.gap h

theorem shape_foldl (h : Shape s) (label : List Char) : Shape (label.foldl Hint.step s) := by
  induction label generalizing s with
  | nil => exact h
  | cons c label ih => exact ih (h.step c)

/-- The letters and digits that a label has, all of them small. -/
def plainPart (label : List Char) : List Char := (label.filter Char.isAlphanum).map Char.toLower

/-- **Letters and digits are kept** in their order, and nothing but underscores is added. -/
theorem filter_foldl (s : State) (label : List Char) :
    (label.foldl step s).reversed.filter isPlain =
      (plainPart label).reverse ++ s.reversed.filter isPlain := by
  induction label generalizing s with
  | nil => rfl
  | cons c label ih =>
    rw [List.foldl_cons, ih]
    have hgap : isPlain '_' = false := rfl
    by_cases hupper : c.isUpper = true
    · have hc : isPlain c.toLower = true := isPlain_iff.mpr (.inl (Text.isLower_toLower hupper))
      have halnum : c.isAlphanum = true := Text.isAlphanum_iff.mpr (.inl hupper)
      cases hafter : s.afterLower <;> simp [step, hupper, plainPart, halnum, hc, hgap, hafter]
    · rw [Bool.not_eq_true] at hupper
      have hclass := isAlphanum_eq_isPlain hupper
      by_cases hplain : isPlain c = true
      · simp [step_of_isPlain s hplain, plainPart, hclass, hplain, Text.toLower_of_not_isUpper hupper]
      · rw [Bool.not_eq_true] at hplain
        rw [step, hupper, if_neg Bool.false_ne_true, hclass, hplain, if_neg Bool.false_ne_true]
        split <;> simp [plainPart, hclass, hplain, hgap]

/-- Words pass through unchanged. -/
theorem reversed_foldl_of_words (h : Words cs) (s : State) :
    (cs.foldl step s).reversed = cs.reverse ++ s.reversed := by
  induction h generalizing s with
  | single hc =>
    rw [List.foldl_cons, step_of_isPlain s hc]
    rfl
  | cons hc _ ih => simp [step_of_isPlain s hc, ih]
  | @gap c cs hc _ ih =>
    have hunder : step ⟨c :: s.reversed, true⟩ '_' = ⟨'_' :: c :: s.reversed, false⟩ := by
      have hne := ne_underscore_of_isPlain hc
      have hupper : ('_' : Char).isUpper = false := rfl
      have halnum : ('_' : Char).isAlphanum = false := rfl
      simp [step, hne, hupper, halnum]
    simp [step_of_isPlain s hc, hunder, ih]

/-! ## The name -/

/-- What a name for a variable looks like. -/
structure Canonical (name : String) : Prop where
  chars : ∀ c ∈ name.toList, c.isLower = true ∨ c.isDigit = true ∨ c = '_'
  /-- It begins with a letter, or an underscore holds a digit off the start. -/
  begins : (∃ c cs, name.toList = c :: cs ∧ c.isLower = true) ∨
    ∃ c cs, name.toList = '_' :: c :: cs ∧ c.isDigit = true
  ends : name.toList.getLast? ≠ some '_'
  single : ¬ ['_', '_'] <:+: name.toList

theorem not_isDigit_of_isLower (h : c.isLower = true) : c.isDigit = false := by
  rw [Text.isLower_iff] at h
  rw [← Bool.not_eq_true, Text.isDigit_iff]
  omega

/-- A name is words, behind an underscore if they begin with a digit. -/
theorem Canonical.exists_words {name : String} (h : Canonical name) :
    ∃ cs, Words cs ∧ finish cs = some name := by
  have hchars : ∀ c ∈ name.toList, isPlain c = true ∨ c = '_' := fun c hc ↦ by
    rw [isPlain_iff, or_assoc]
    exact h.chars c hc
  rcases h.begins with ⟨c, cs, hname, hc⟩ | ⟨c, cs, hname, hc⟩
  · have hhead : ∃ c cs, name.toList = c :: cs ∧ isPlain c = true :=
      ⟨c, cs, hname, isPlain_iff.mpr (.inl hc)⟩
    refine ⟨name.toList, words_of_faultless hchars hhead h.ends h.single, ?_⟩
    rw [hname, finish, not_isDigit_of_isLower hc, if_neg Bool.false_ne_true, ← hname,
      String.ofList_toList]
  · have hends := h.ends
    have hsingle := h.single
    rw [hname] at hchars hends hsingle
    refine ⟨c :: cs, words_of_faultless (fun x hx ↦ hchars x (List.mem_cons_of_mem _ hx))
      ⟨c, cs, rfl, isPlain_iff.mpr (.inr hc)⟩ (by simpa using hends)
      (fun hinfix ↦ hsingle (List.infix_cons hinfix)), ?_⟩
    rw [finish, if_pos hc, ← hname, String.ofList_toList]

/-- **Finished words are a name.** -/
theorem Words.canonical {name : String} (h : Words cs) (hname : finish cs = some name) :
    Canonical name := by
  have hchars := h.forall_mem
  simp only [isPlain_iff, or_assoc] at hchars
  have hsingle := h.not_infix_underscore h.not_infix
  have hlast := h.getLast?_ne
  have hinfix := h.not_infix
  obtain ⟨c, ds, rfl, hc⟩ := h.head
  rw [finish, Option.some.injEq] at hname
  subst hname
  by_cases hdigit : c.isDigit = true
  · rw [if_pos hdigit]
    refine ⟨?_, .inr ⟨c, ds, String.toList_ofList, hdigit⟩, ?_, ?_⟩ <;> rw [String.toList_ofList]
    · exact List.forall_mem_cons.mpr ⟨.inr (.inr rfl), hchars⟩
    · simpa using hlast
    · exact hsingle
  · have hlower := (isPlain_iff.mp hc).resolve_right hdigit
    rw [if_neg hdigit]
    refine ⟨?_, .inl ⟨c, ds, String.toList_ofList, hlower⟩, ?_, ?_⟩ <;> rw [String.toList_ofList]
    · exact hchars
    · exact hlast
    · exact hinfix

theorem dropWhile_of_words (h : Words cs) : cs.dropWhile (· = '_') = cs := by
  obtain ⟨c, ds, rfl, hc⟩ := h.head
  exact List.dropWhile_cons_of_neg (by simpa using ne_underscore_of_isPlain hc)

/-- The underscore that no word came to justify falls away. -/
theorem Shape.dropWhile (h : Shape s) :
    s.reversed.dropWhile (· = '_') = [] ∨ Words (s.reversed.dropWhile (· = '_')) := by
  cases h with
  | start => exact .inl rfl
  | words h => exact .inr ((dropWhile_of_words h).symm ▸ h)
  | gap h =>
    rw [List.dropWhile_cons_of_pos (by simp), dropWhile_of_words h]
    exact .inr h

theorem filter_dropWhile (cs : List Char) :
    (cs.dropWhile (· = '_')).filter isPlain = cs.filter isPlain := by
  have hall : ∀ c ∈ cs.takeWhile (· = '_'), decide (c = '_') = true :=
    List.all_eq_true.mp List.all_takeWhile
  have hunder : (cs.takeWhile (· = '_')).filter isPlain = [] :=
    List.filter_eq_nil_iff.mpr fun c hc hplain ↦
      ne_underscore_of_isPlain hplain (of_decide_eq_true (hall c hc))
  conv_rhs => rw [← List.takeWhile_append_dropWhile (p := (· = '_')) (l := cs)]
  rw [List.filter_append, hunder, List.nil_append]

/-- What a label comes to before it is finished: nothing, or words with its letters and digits. -/
theorem exists_ofLabel?_eq (label : String) : ∃ cs, ofLabel? label = finish cs ∧
    (cs = [] ∨ Words cs) ∧ cs.filter isPlain = plainPart label.toList := by
  refine ⟨_, rfl, ?_, ?_⟩
  · rw [List.reverse_eq_nil_iff]
    exact (shape_foldl .start _).dropWhile.imp_right Words.reverse
  · rw [List.filter_reverse, filter_dropWhile, filter_foldl]
    simp [plainPart, Text.filter_isAlphanum_trimChars]

theorem finish_eq_none_iff : finish cs = none ↔ cs = [] := by
  cases cs <;> simp [finish]

theorem Words.filter_ne_nil (h : Words cs) : cs.filter isPlain ≠ [] := by
  obtain ⟨c, ds, rfl, hc⟩ := h.head
  rw [List.filter_cons_of_pos hc]
  exact List.cons_ne_nil _ _

/-- **Only a label without letters and digits suggests nothing.** -/
theorem ofLabel?_eq_none_iff {label : String} :
    ofLabel? label = none ↔ ∀ c ∈ label.toList, c.isAlphanum = false := by
  obtain ⟨cs, hcs, hshape, hfilter⟩ := exists_ofLabel?_eq label
  have hnil : cs = [] ↔ plainPart label.toList = [] := by
    rw [← hfilter]
    constructor
    · intro h
      rw [h, List.filter_nil]
    · exact fun h ↦ hshape.resolve_right fun hwords ↦ hwords.filter_ne_nil h
  rw [hcs, finish_eq_none_iff, hnil, plainPart, List.map_eq_nil_iff, List.filter_eq_nil_iff]
  simp

/-- **A name suggests itself**: the underscore before a digit is dropped and put back. -/
theorem ofLabel?_of_canonical {name : String} (h : Canonical name) : ofLabel? name = some name := by
  obtain ⟨cs, hwords, hname⟩ := h.exists_words
  have hblank : ∀ c ∈ name.toList, Text.isBlank c = false := fun c hc ↦ by
    rcases h.chars c hc with hlower | hdigit | rfl
    · exact Text.not_isBlank_of_isAlphanum (Text.isAlphanum_iff.mpr (.inr (.inl hlower)))
    · exact Text.not_isBlank_of_isAlphanum (Text.isAlphanum_iff.mpr (.inr (.inr hdigit)))
    · rfl
  have hrun : (name.toList.foldl step {}).reversed = cs.reverse := by
    obtain ⟨c, ds, rfl, -⟩ := hwords.head
    rw [finish, Option.some.injEq] at hname
    rw [← hname, String.toList_ofList]
    split
    · have hskip : step {} '_' = {} := rfl
      rw [List.foldl_cons, hskip, reversed_foldl_of_words hwords, List.append_nil]
    · rw [reversed_foldl_of_words hwords, List.append_nil]
  rw [ofLabel?, Text.trimChars_eq_self (fun c hc ↦ hblank c (List.mem_of_mem_head? hc))
    (fun c hc ↦ hblank c (List.mem_of_getLast? hc))]
  show finish ((name.toList.foldl step {}).reversed.dropWhile (· = '_')).reverse = some name
  rw [hrun, dropWhile_of_words hwords.reverse, List.reverse_reverse, hname]

/-- A suggested name has just the letters and digits of its label, made small. -/
theorem canonical_of_ofLabel? {label name : String} (h : ofLabel? label = some name) :
    Canonical name ∧ name.toList.filter isPlain = plainPart label.toList := by
  obtain ⟨cs, hcs, hshape, hfilter⟩ := exists_ofLabel?_eq label
  rw [hcs] at h
  have hwords : Words cs := hshape.resolve_left fun hnil ↦ by
    rw [finish_eq_none_iff.mpr hnil] at h
    cases h
  refine ⟨hwords.canonical h, ?_⟩
  obtain ⟨c, ds, rfl, hc⟩ := hwords.head
  rw [finish, Option.some.injEq] at h
  have hgap : isPlain '_' = false := rfl
  rw [← h, String.toList_ofList, ← hfilter]
  split <;> simp [hgap]

/-- **The hint names are the canonical names, each of which suggests itself.**  A label suggests one
unless it has no letter or digit of ASCII. -/
theorem ofLabel?_canonical (label : String) :
    (ofLabel? label = none ↔ ∀ c ∈ label.toList, c.isAlphanum = false) ∧
      (ofLabel? label = some label ↔ Canonical label) ∧
      ∀ name ∈ ofLabel? label, Canonical name ∧ ofLabel? name = some name ∧
        name.toList.filter isPlain = plainPart label.toList := by
  refine ⟨ofLabel?_eq_none_iff, ⟨fun h ↦ (canonical_of_ofLabel? h).1, ofLabel?_of_canonical⟩, ?_⟩
  intro name hname
  obtain ⟨hcanonical, hplain⟩ := canonical_of_ofLabel? hname
  exact ⟨hcanonical, ofLabel?_of_canonical hcanonical, hplain⟩

example : ofLabel? " 2nd OrderTotal (EUR) " = some "_2nd_order_total_eur" := by rfl

end MappingGraph.Hint
