import Mathlib.Data.List.Chain
import MappingGraph.Proofs.Repeats
import MappingGraph.Proofs.Template.Preview

/-!
# The parts of a template

`Template.Splits` says without any scanning how a template falls into parts: written one after the
other the parts are the template, every parameter is an identifier, in no text stands a parameter,
and no two texts are neighbours.  Two parameters never overlap, since the braces of a parameter are
the only ones in it.  Hence there is one way to split a template, and `split` finds it.

A parameter must not begin in a text and reach out of it either.  While the scan goes on, what it has
gathered is followed by characters that may still complete a parameter, so its invariant
`Template.Unbegun` is about both.

The parameters are numbered by a scan that looks for their names only and keeps the new ones.  It
meets what splitting meets (`Template.params_eq_unseen`), so each input of a compiled template ends up
where its parameter stands.  `Template.split_faithful` has all of this.
-/

set_option autoImplicit false

namespace MappingGraph.Template

variable {template : String} {parts : List Part} {c : Char}
  {cs name rest gathered shown : List Char}

/-! ## Parts that make up a template -/

/-- A part as it is written in a template. -/
def Part.written : Part → String
  | .text s => s
  | .param name => "\x7b" ++ name ++ "\x7d"

/-- One of the two parts is a parameter. -/
def Part.Apart (p q : Part) : Prop := p.name?.isSome ∨ q.name?.isSome

/-- That the parts make up the template. -/
structure Splits (template : String) (parts : List Part) : Prop where
  /-- Written one after the other they are the template. -/
  written : String.join (parts.map Part.written) = template
  /-- Parameters are identifiers. -/
  names : ∀ s, .param s ∈ parts → IsName s.toList
  /-- A text is not empty, and no parameter stands in it. -/
  texts : ∀ s, .text s ∈ parts →
    s ≠ "" ∧ ∀ name, IsName name → ¬ Template.written name <:+: s.toList
  /-- No two texts are neighbours. -/
  apart : parts.IsChain Part.Apart

theorem toList_partWritten (part : Part) : part.written.toList = part.chars written := by
  cases part with
  | text s => rfl
  | param name => exact toList_braces name

theorem written_iff : String.join (parts.map Part.written) = template ↔
    parts.flatMap (Part.chars written) = template.toList := by
  rw [← String.toList_inj, String.toList_join, List.flatMap_map]
  simp only [toList_partWritten]

/-! ## What splitting gives -/

/-- No parameter begins in what was gathered. -/
def Unbegun (gathered cs : List Char) : Prop :=
  ∀ back, back <:+ gathered.reverse → back ≠ [] → leadingParam? (back ++ cs) = none

theorem unbegun_nil : Unbegun [] cs := fun _ hback hne ↦ absurd (List.suffix_nil.mp hback) hne

theorem Unbegun.cons (h : Unbegun gathered (c :: cs)) (hlead : leadingParam? (c :: cs) = none) :
    Unbegun (c :: gathered) cs := by
  intro back hback _
  rw [List.reverse_cons] at hback
  rcases List.suffix_concat_iff.mp hback with rfl | ⟨front, rfl, hfront⟩
  · contradiction
  · rw [List.append_assoc, List.singleton_append]
    cases front with
    | nil => exact hlead
    | cons d front => exact h _ hfront (List.cons_ne_nil _ _)

theorem Unbegun.of_mem_textPart (h : Unbegun gathered cs) {s : String}
    (hs : .text s ∈ textPart gathered) :
    s ≠ "" ∧ ∀ name, IsName name → ¬ written name <:+: s.toList := by
  rw [textPart] at hs
  split at hs
  · exact absurd hs List.not_mem_nil
  · next hne =>
    rw [Part.text.inj (List.mem_singleton.mp hs), String.toList_ofList]
    refine ⟨fun hempty ↦ hne ?_, fun name hname hin ↦ ?_⟩
    · have := congrArg String.toList hempty
      simpa using this
    · obtain ⟨front, back, heq⟩ := hin
      have hback : written name ++ back <:+ gathered.reverse :=
        ⟨front, by rw [← List.append_assoc, heq]⟩
      refine leadingParam?_of_isPrefixOf hname ?_ (h _ hback (List.cons_ne_nil _ _))
      rw [List.append_assoc]
      exact List.isPrefixOf_iff_prefix.mpr (List.prefix_append _ _)

/-- The texts are the stretches between parameters. -/
theorem of_text_mem_splitFrom {s : String} (hg : Unbegun gathered cs)
    (h : .text s ∈ splitFrom 0 gathered cs) :
    s ≠ "" ∧ ∀ name, IsName name → ¬ written name <:+: s.toList := by
  induction cs using ind generalizing gathered with
  | nil => exact hg.of_mem_textPart h
  | param name rest hname ih =>
    rw [splitFrom_param hname, List.mem_append, List.mem_cons] at h
    rcases h with h | h | h
    · exact hg.of_mem_textPart h
    · cases h
    · exact ih unbegun_nil h
  | plain c cs hlead ih =>
    rw [splitFrom_plain hlead] at h
    exact ih (hg.cons hlead) h

theorem apart_splitFrom (gathered cs : List Char) :
    (splitFrom 0 gathered cs).IsChain Part.Apart := by
  have htext : ∀ gathered, (textPart gathered).IsChain Part.Apart := fun gathered ↦ by
    rw [textPart]
    split
    · exact .nil
    · exact .singleton _
  induction cs using ind generalizing gathered with
  | nil => exact htext gathered
  | param name rest hname ih =>
    rw [splitFrom_param hname]
    refine (htext gathered).append ((ih []).cons fun _ _ ↦ .inl rfl) fun p _ q hq ↦ .inr ?_
    rw [List.head?_cons, Option.mem_some_iff] at hq
    rw [← hq]
    rfl
  | plain c cs hlead ih =>
    rw [splitFrom_plain hlead]
    exact ih (c :: gathered)

/-- **Splitting a template gives parts that make it up.** -/
theorem splits_split (template : String) : Splits template (split template) where
  written := written_iff.mpr (filled_written template.toList)
  names _ := isName_of_mem_splitFrom
  texts _ := of_text_mem_splitFrom unbegun_nil
  apart := apart_splitFrom [] template.toList

/-! ## There is no other way to split -/

/-- Behind a text comes nothing, or the brace of a parameter. -/
def Bounded (rest : List Char) : Prop := rest = [] ∨ ∃ name left, IsName name ∧
  rest = '\x7b' :: (name ++ '\x7d' :: left)

/-- A parameter that begins in a text stands in the text, since it has no other brace in it with
which what comes behind could begin. -/
theorem leadingParam?_append (hrest : Bounded rest)
    (hfree : ∀ name, IsName name → ¬ written name <:+: c :: cs) :
    leadingParam? (c :: (cs ++ rest)) = none := by
  rw [Option.eq_none_iff_forall_ne_some]
  rintro ⟨name, left⟩ hsome
  obtain ⟨hname, heq⟩ := leadingParam?_eq_some_iff.mp hsome
  rw [← written_append, ← List.cons_append] at heq
  rcases List.append_eq_append_iff.mp heq with ⟨beyond, hwritten, hbeyond⟩ | ⟨back, htext, _⟩
  · cases beyond with
    | nil =>
      rw [List.append_nil] at hwritten
      exact hfree name hname (hwritten ▸ List.infix_rfl)
    | cons d beyond =>
      rcases hrest with rfl | ⟨next, left', _, rfl⟩
      · cases hbeyond
      · rw [List.cons_append] at hbeyond
        have hmem : d ∈ name ++ ['\x7d'] := by
          rw [(List.cons.inj hwritten).2]
          exact List.mem_append_right _ List.mem_cons_self
        rw [← (List.cons.inj hbeyond).1] at hmem
        rcases List.mem_append.mp hmem with hmem | hmem
        · exact hname.not_mem_opening hmem
        · exact absurd (List.mem_singleton.mp hmem) (by decide)
  · exact hfree name hname (htext ▸ (List.prefix_append _ _).isInfix)

/-- A text without parameters is gathered. -/
theorem splitFrom_append (hrest : Bounded rest)
    (hfree : ∀ name, IsName name → ¬ written name <:+: shown) :
    splitFrom 0 gathered (shown ++ rest) = splitFrom 0 (shown.reverse ++ gathered) rest := by
  induction shown generalizing gathered with
  | nil => rfl
  | cons c shown ih =>
    have htail : splitFrom 0 (c :: gathered) (shown ++ rest) =
        splitFrom 0 (shown.reverse ++ c :: gathered) rest := ih fun name hname hin ↦
      hfree name hname (hin.trans (List.suffix_cons c shown).isInfix)
    rw [List.cons_append, splitFrom_plain (leadingParam?_append hrest hfree), htail,
      List.reverse_cons, List.append_assoc, List.singleton_append]

/-- What was gathered is a part of its own. -/
theorem splitFrom_of_bounded (hrest : Bounded rest) :
    splitFrom 0 gathered rest = textPart gathered ++ splitFrom 0 [] rest := by
  rcases hrest with rfl | ⟨name, left, hname, rfl⟩
  · exact (List.append_nil _).symm
  · rw [splitFrom_param hname, splitFrom_param hname]
    rfl

theorem splitFrom_flatMap (hnames : ∀ s, .param s ∈ parts → IsName s.toList)
    (htexts : ∀ s, .text s ∈ parts →
      s ≠ "" ∧ ∀ name, IsName name → ¬ written name <:+: s.toList)
    (hapart : parts.IsChain Part.Apart) :
    splitFrom 0 [] (parts.flatMap (Part.chars written)) = parts := by
  induction parts with
  | nil => rfl
  | cons part parts ih =>
    have hrest := ih (fun s hs ↦ hnames s (List.mem_cons_of_mem _ hs))
      (fun s hs ↦ htexts s (List.mem_cons_of_mem _ hs)) (List.isChain_cons.mp hapart).2
    rw [List.flatMap_cons]
    cases part with
    | param name =>
      rw [Part.chars, written_append, splitFrom_param (hnames name List.mem_cons_self), hrest,
        String.ofList_toList]
      rfl
    | text s =>
      obtain ⟨hne, hfree⟩ := htexts s List.mem_cons_self
      have hbounded : Bounded (parts.flatMap (Part.chars written)) := by
        cases parts with
        | nil => exact .inl rfl
        | cons next parts =>
          have hnext := ((List.isChain_cons.mp hapart).1 next rfl).resolve_left Bool.false_ne_true
          cases next with
          | text t => exact absurd hnext Bool.false_ne_true
          | param name =>
            refine .inr ⟨name.toList, parts.flatMap (Part.chars written),
              hnames name (List.mem_cons_of_mem _ List.mem_cons_self), ?_⟩
            rw [List.flatMap_cons, Part.chars, written_append]
      have hs : (s.toList.reverse ++ []).isEmpty = false := by simpa using hne
      rw [Part.chars, splitFrom_append hbounded hfree, splitFrom_of_bounded hbounded, hrest,
        textPart, hs, if_neg Bool.false_ne_true, List.append_nil, List.reverse_reverse,
        String.ofList_toList]
      rfl

/-- **No other parts make up a template.** -/
theorem Splits.eq_split (h : Splits template parts) : parts = split template := by
  rw [split, ← written_iff.mp h.written, splitFrom_flatMap h.names h.texts h.apart]

/-! ## Listing the parameters -/

/-- The names of the parameters that are met in a list of characters, one after the other.  `skip`
characters still belong to the parameter before. -/
def scan : (skip : Nat) → List Char → List String
  | _, [] => []
  | skip + 1, _ :: cs => scan skip cs
  | 0, c :: cs =>
    match leadingParam? (c :: cs) with
    | some (name, _) => String.ofList name :: scan (name.length + 1) cs
    | none => scan 0 cs

/-- The names that are new when they come. -/
def unseen : (seen : List String) → List String → List String
  | _, [] => []
  | seen, name :: names =>
    if name ∈ seen then unseen seen names else name :: unseen (name :: seen) names

theorem filterMap_textPart (gathered : List Char) :
    (textPart gathered).filterMap Part.name? = [] := by
  rw [textPart]
  split <;> rfl

/-- A scan for the names alone meets those that splitting meets. -/
theorem filterMap_splitFrom (skip : Nat) (gathered cs : List Char) :
    (splitFrom skip gathered cs).filterMap Part.name? = scan skip cs := by
  fun_induction splitFrom skip gathered cs with
  | case1 skip gathered => rw [filterMap_textPart, scan]
  | case2 skip gathered c cs ih => rw [ih, scan]
  | case3 gathered c cs name left hlead ih =>
    rw [List.filterMap_append, filterMap_textPart, List.nil_append, List.filterMap_cons, ih, scan,
      hlead]
    rfl
  | case4 gathered c cs hlead ih => rw [ih, scan, hlead]

theorem unseen_eq (seen names : List String) :
    unseen seen names = (names.filter (· ∉ seen)).eraseDups := by
  induction names generalizing seen with
  | nil => rfl
  | cons name names ih =>
    rw [unseen]
    split
    · next h => rw [ih, List.filter_cons_of_neg (by simpa using h)]
    · next h =>
      rw [ih, List.filter_cons_of_pos (by simpa using h), List.eraseDups_cons, List.filter_filter]
      refine congrArg (name :: List.eraseDups ·) (List.filter_congr fun other _ ↦ ?_)
      rw [Bool.eq_iff_iff]
      simp

/-- **Splitting and listing agree on the parameters** and on their numbers. -/
theorem params_eq_unseen (template : String) :
    params template = unseen [] (scan 0 template.toList) := by
  have hall : (scan 0 template.toList).filter (· ∉ ([] : List String)) = scan 0 template.toList :=
    List.filter_eq_self.mpr fun _ _ ↦ by simp
  rw [unseen_eq, hall, params, split, filterMap_splitFrom]

/-- That a template is split, and compiled, without losing or inventing anything. -/
structure Faithful (template : String) : Prop where
  /-- The parts make up the template, -/
  splits : Splits template (split template)
  /-- and no others do. -/
  unique : ∀ parts, Splits template parts → parts = split template
  /-- The parameters are those among the parts, each once and in the order in which they appear. -/
  params : ListsFirst ((split template).filterMap Part.name?) (params template)
  /-- They are also what a scan for new names finds. -/
  scanned : Template.params template = unseen [] (scan 0 template.toList)
  /-- With the inputs for the parameters in their order, what a node compiles to is the template with
  all its parameters replaced. -/
  compiled : ∀ (node : Node) (inputs : List BuiltExpr) (leaf : BuiltExpr → String),
    Rule.templateText node.config = template →
      (Rule.template.build node inputs).textBy leaf =
        String.join ((split template).map
          (Part.given (Template.params template) (inputs.map (Expr.textBy leaf))))

/-- **Splitting is lossless, and compiling puts each input where its parameter stands.** -/
theorem split_faithful (template : String) : Faithful template where
  splits := splits_split template
  unique _ := Splits.eq_split
  params := listsFirst_eraseDups _
  scanned := params_eq_unseen template
  compiled node inputs leaf htext := by
    rw [Rule.build, htext]
    exact textBy_templateExpr leaf template inputs

end MappingGraph.Template
