import Mathlib.Data.List.TakeWhile
import MappingGraph.Template

/-!
# How a template is split

A parameter begins where an identifier in braces begins (`leadingParam?_eq_some_iff`), and a list of
characters is read from there to there: it is empty, or it begins with a parameter, or its first
character belongs to a text.  `Template.ind` is the induction along this reading.

`filled value cs` is what becomes of a list when every parameter is replaced at once.  It has one
equation for each step of the reading, so that nothing further on has to do with the characters that
`splitFrom` skips and gathers.
-/

set_option autoImplicit false

namespace MappingGraph.Template

variable {c : Char} {cs name rest gathered : List Char} {value : List Char → List Char}

/-! ## Identifiers -/

/-- What may stand in the braces of a parameter. -/
def IsName : List Char → Prop
  | [] => False
  | c :: cs => isNameStart c = true ∧ ∀ d ∈ cs, isNameChar d = true

instance : DecidablePred IsName
  | [] => inferInstanceAs (Decidable False)
  | c :: cs =>
    decidable_of_iff (isNameStart c = true ∧ cs.all isNameChar = true) (by
      rw [List.all_eq_true, IsName])

/-- The parameter with the name as it is written. -/
def written (name : List Char) : List Char := '\x7b' :: (name ++ ['\x7d'])

theorem written_append (name rest : List Char) :
    written name ++ rest = '\x7b' :: (name ++ '\x7d' :: rest) := by
  simp [written]

theorem isNameChar_of_isNameStart (h : isNameStart c = true) : isNameChar c = true := by
  simp only [isNameStart, isNameChar, Char.isAlphanum, Bool.or_eq_true] at h ⊢
  exact h.imp_left .inl

namespace IsName

theorem isNameChar (h : IsName name) : ∀ d ∈ name, isNameChar d = true := by
  cases name with
  | nil => exact absurd h id
  | cons c cs =>
    intro d hd
    rcases List.mem_cons.mp hd with rfl | hd
    · exact isNameChar_of_isNameStart h.1
    · exact h.2 d hd

theorem not_mem_opening (h : IsName name) : '\x7b' ∉ name :=
  fun hmem ↦ absurd (h.isNameChar _ hmem) (by decide)

end IsName

/-! ## The reading of a list -/

/-- **A parameter begins with an identifier in braces.** -/
theorem leadingParam?_eq_some_iff :
    leadingParam? cs = some (name, rest) ↔
      IsName name ∧ cs = '\x7b' :: (name ++ '\x7d' :: rest) := by
  constructor
  · intro h
    rw [leadingParam?.eq_def] at h
    split at h
    · next c d cs =>
      split at h
      · next hstart =>
        simp only [Bool.and_eq_true, decide_eq_true_eq] at hstart
        obtain ⟨rfl, hd⟩ := hstart
        split at h
        · next e left hdrop =>
          split at h
          · next he =>
            obtain ⟨rfl, rfl⟩ := Prod.mk.inj (Option.some.inj h)
            have hcs := List.takeWhile_append_dropWhile (p := Template.isNameChar) (l := cs)
            rw [hdrop, he] at hcs
            refine ⟨⟨hd, fun x hx ↦ List.mem_takeWhile_imp hx⟩, ?_⟩
            rw [List.cons_append, hcs]
          · cases h
        · cases h
      · cases h
    · cases h
  · rintro ⟨hname, rfl⟩
    cases name with
    | nil => exact absurd hname id
    | cons d ds =>
      have hclosing : ¬ Template.isNameChar '\x7d' = true := by decide
      rw [List.cons_append, leadingParam?, if_pos (by simp [hname.1]),
        List.dropWhile_append_of_pos hname.2, List.dropWhile_cons_of_neg hclosing,
        List.takeWhile_append_of_pos hname.2, List.takeWhile_cons_of_neg hclosing]
      simp

/-- Induction along the reading of a list. -/
@[elab_as_elim]
theorem ind {P : List Char → Prop} (nil : P [])
    (param : ∀ name rest, IsName name → P rest → P ('\x7b' :: (name ++ '\x7d' :: rest)))
    (plain : ∀ c cs, leadingParam? (c :: cs) = none → P cs → P (c :: cs)) (cs : List Char) :
    P cs := by
  induction hn : cs.length using Nat.strongRecOn generalizing cs with
  | _ n ih =>
    cases cs with
    | nil => exact nil
    | cons c cs =>
      cases hlead : leadingParam? (c :: cs) with
      | none => exact plain c cs hlead (ih cs.length (by simp [← hn]) cs rfl)
      | some p =>
        obtain ⟨name, rest⟩ := p
        obtain ⟨hname, heq⟩ := leadingParam?_eq_some_iff.mp hlead
        rw [heq]
        refine param name rest hname (ih rest.length ?_ rest rfl)
        rw [← hn, heq, List.length_cons, List.length_append, List.length_cons]
        omega

theorem splitFrom_skip (skipped : List Char) :
    splitFrom skipped.length gathered (skipped ++ cs) = splitFrom 0 gathered cs := by
  induction skipped with
  | nil => rfl
  | cons c skipped ih => rw [List.length_cons, List.cons_append, splitFrom, ih]

theorem splitFrom_param (h : IsName name) :
    splitFrom 0 gathered ('\x7b' :: (name ++ '\x7d' :: rest)) =
      textPart gathered ++ .param (String.ofList name) :: splitFrom 0 [] rest := by
  have hlead := leadingParam?_eq_some_iff.mpr ⟨h, Eq.refl ('\x7b' :: (name ++ '\x7d' :: rest))⟩
  have hskip := @splitFrom_skip rest [] (name ++ ['\x7d'])
  rw [List.length_append, List.length_singleton, List.append_assoc, List.singleton_append] at hskip
  rw [splitFrom, hlead]
  exact congrArg (textPart gathered ++ Part.param (String.ofList name) :: ·) hskip

theorem splitFrom_plain (h : leadingParam? (c :: cs) = none) :
    splitFrom 0 gathered (c :: cs) = splitFrom 0 (c :: gathered) cs := by
  rw [splitFrom, h]

/-- Only identifiers are parameters. -/
theorem isName_of_mem_splitFrom {s : String} (h : .param s ∈ splitFrom 0 gathered cs) :
    IsName s.toList := by
  have htext : ∀ gathered, Part.param s ∉ textPart gathered := fun gathered hmem ↦ by
    rw [textPart] at hmem
    split at hmem
    · exact absurd hmem List.not_mem_nil
    · cases List.mem_singleton.mp hmem
  induction cs using ind generalizing gathered with
  | nil => exact absurd h (htext gathered)
  | param name rest hname ih =>
    rw [splitFrom_param hname, List.mem_append, List.mem_cons] at h
    rcases h with h | h | h
    · exact absurd h (htext gathered)
    · rw [Part.param.inj h, String.toList_ofList]
      exact hname
    · exact ih h
  | plain c cs hlead ih =>
    rw [splitFrom_plain hlead] at h
    exact ih h

/-! ## Replacing all parameters at once -/

/-- The characters of a part, with those of a value for a parameter. -/
def Part.chars (value : List Char → List Char) : Part → List Char
  | .text s => s.toList
  | .param name => value name.toList

/-- The list with a value in the place of every parameter. -/
def filled (value : List Char → List Char) (cs : List Char) : List Char :=
  (splitFrom 0 [] cs).flatMap (Part.chars value)

theorem flatMap_chars_textPart (gathered : List Char) :
    (textPart gathered).flatMap (Part.chars value) = gathered.reverse := by
  rw [textPart]
  split
  · next h => rw [List.isEmpty_iff.mp h]; rfl
  · rw [List.flatMap_singleton, Part.chars, String.toList_ofList]

/-- What was gathered comes out in front. -/
theorem flatMap_chars_splitFrom (gathered cs : List Char) :
    (splitFrom 0 gathered cs).flatMap (Part.chars value) = gathered.reverse ++ filled value cs := by
  rw [filled]
  induction cs using ind generalizing gathered with
  | nil => rw [splitFrom, splitFrom, flatMap_chars_textPart, flatMap_chars_textPart]; simp
  | param name rest hname _ =>
    rw [splitFrom_param hname, splitFrom_param hname, List.flatMap_append, List.flatMap_append,
      flatMap_chars_textPart, flatMap_chars_textPart]
    simp
  | plain c cs hlead ih =>
    rw [splitFrom_plain hlead, splitFrom_plain hlead, ih (c :: gathered), ih [c]]
    simp

@[simp]
theorem filled_nil : filled value [] = [] := rfl

theorem filled_param (h : IsName name) :
    filled value ('\x7b' :: (name ++ '\x7d' :: rest)) = value name ++ filled value rest := by
  rw [filled, splitFrom_param h, List.flatMap_append, flatMap_chars_textPart, List.flatMap_cons,
    Part.chars, String.toList_ofList]
  rfl

theorem filled_plain (h : leadingParam? (c :: cs) = none) :
    filled value (c :: cs) = c :: filled value cs := by
  rw [filled, splitFrom_plain h, flatMap_chars_splitFrom]
  rfl

/-- **Splitting loses nothing.** -/
theorem filled_written (cs : List Char) : filled written cs = cs := by
  induction cs using ind with
  | nil => rfl
  | param name rest hname ih => rw [filled_param hname, ih]; simp [written]
  | plain c cs hlead ih => rw [filled_plain hlead, ih]

end MappingGraph.Template
