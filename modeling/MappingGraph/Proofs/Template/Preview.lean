import Mathlib.Data.List.Basic
import MappingGraph.Build.Rules
import MappingGraph.Proofs.Template.Split

/-!
# The preview of a template and its compiled form

A template compiles to a chain of its parts, so that all parameters are replaced at once: this is
`Template.resolved`.  The preview `substitute` makes a pass over the text for every name instead.
One pass is as good as replacing that name at once (`toList_replaceAll`), but what the pass puts in
is open to the later ones, and so are braces that stood around it.

`substitute_spec` says what this comes to.  The preview replaces the names one after the other, and
it agrees with the compiled form if and only if this comes to replacing them at once.  So it does if
no brace can be mistaken for one of a parameter: if one of the two braces occurs neither in the texts
of the template nor in the values.
`not_previewAgrees_nested` is a template and values for which the two differ.
-/

set_option autoImplicit false

namespace MappingGraph

namespace Template

variable {template name new : String} {values rest : Members} {cs shown : List Char}
  {value : List Char → List Char}

/-! ## What the preview should show -/

/-- The text of a part; a parameter without a value stands as it is written. -/
def Part.resolved (values : Members) : Part → String
  | .text s => s
  | .param name => ((values.find? name).map valueText).getD ("\x7b" ++ name ++ "\x7d")

/-- The template with all parameters replaced at once. -/
def resolved (template : String) (values : Members) : String :=
  String.join ((split template).map (Part.resolved values))

/-- The same on lists of characters. -/
def valueChars (values : Members) (name : List Char) : List Char :=
  ((values.find? (String.ofList name)).map fun v ↦ (valueText v).toList).getD (written name)

theorem toList_braces (name : String) :
    ("\x7b" ++ name ++ "\x7d").toList = written name.toList := by
  simp [written]

theorem toList_partResolved (part : Part) :
    (part.resolved values).toList = part.chars (valueChars values) := by
  cases part with
  | text s => rfl
  | param name =>
    rw [Part.resolved, Part.chars, valueChars, String.ofList_toList]
    cases values.find? name with
    | none => exact toList_braces name
    | some v => rfl

theorem toList_resolved : (resolved template values).toList =
    filled (valueChars values) template.toList := by
  rw [resolved, String.toList_join, List.flatMap_map, filled, split]
  exact List.flatMap_congr fun part _ ↦ toList_partResolved part

/-! ## One pass -/

/-- What lies in front of the next opening brace is passed over. -/
theorem replaceFrom_append (h : '\x7b' ∉ shown) :
    Text.replaceFrom (written name.toList) new.toList 0 (shown ++ cs) =
      shown ++ Text.replaceFrom (written name.toList) new.toList 0 cs := by
  induction shown with
  | nil => rfl
  | cons c shown ih =>
    rw [List.mem_cons, not_or] at h
    have hprefix : (written name.toList).isPrefixOf (c :: (shown ++ cs)) = false := by
      rw [written, List.isPrefixOf_cons_cons, beq_eq_false_iff_ne.mpr h.1, Bool.false_and]
    rw [List.cons_append, Text.replaceFrom, hprefix, if_neg Bool.false_ne_true, ih h.2,
      List.cons_append]

theorem replaceFrom_skip (piece new skipped : List Char) :
    Text.replaceFrom piece new skipped.length (skipped ++ cs) =
      Text.replaceFrom piece new 0 cs := by
  induction skipped with
  | nil => rfl
  | cons c skipped ih => rw [List.length_cons, List.cons_append, Text.replaceFrom, ih]

/-- A name in braces is the beginning of a parameter only if it is that parameter. -/
theorem isPrefixOf_param {n m left : List Char} (hn : IsName n) (hm : IsName m) :
    (written n).isPrefixOf ('\x7b' :: (m ++ '\x7d' :: left)) = true ↔ n = m := by
  rw [List.isPrefixOf_iff_prefix]
  constructor
  · rintro ⟨tail, heq⟩
    have hlead := leadingParam?_eq_some_iff.mpr ⟨hm, Eq.refl ('\x7b' :: (m ++ '\x7d' :: left))⟩
    rw [← heq, leadingParam?_eq_some_iff.mpr ⟨hn, written_append n tail⟩] at hlead
    exact (Prod.mk.inj (Option.some.inj hlead)).1
  · rintro rfl
    exact ⟨left, written_append n left⟩

theorem leadingParam?_of_isPrefixOf {n : List Char} (hn : IsName n)
    (h : (written n).isPrefixOf cs = true) : leadingParam? cs ≠ none := by
  obtain ⟨tail, rfl⟩ := List.isPrefixOf_iff_prefix.mp h
  rw [leadingParam?_eq_some_iff.mpr ⟨hn, written_append n tail⟩]
  exact Option.some_ne_none _

/-- **A pass replaces its name wherever it is a parameter**, and nothing else. -/
theorem toList_replaceAll (hname : IsName name.toList) (text : String) :
    (Text.replaceAll ("\x7b" ++ name ++ "\x7d") new text).toList =
      filled (fun n ↦ if n = name.toList then new.toList else written n) text.toList := by
  rw [Text.replaceAll, String.toList_ofList, toList_braces]
  induction text.toList using ind with
  | nil => rfl
  | param n left hn ih =>
    rw [filled_param hn]
    split
    · next heq =>
      have hprefix : (written name.toList).isPrefixOf ('\x7b' :: (n ++ '\x7d' :: left)) = true :=
        (isPrefixOf_param hname hn).mpr heq.symm
      have hskip := @replaceFrom_skip left (written name.toList) new.toList (n ++ ['\x7d'])
      rw [Text.replaceFrom, hprefix, if_pos rfl, ← ih, ← hskip, heq]
      simp [written]
    · next hne =>
      have hprefix : (written name.toList).isPrefixOf ('\x7b' :: (n ++ '\x7d' :: left)) = false :=
        Bool.eq_false_iff.mpr (mt (isPrefixOf_param hname hn).mp (Ne.symm hne))
      have hshown : '\x7b' ∉ n ++ ['\x7d'] := by
        simpa using hn.not_mem_opening
      have happend := @replaceFrom_append name new left (n ++ ['\x7d']) hshown
      rw [List.append_assoc, List.singleton_append] at happend
      rw [Text.replaceFrom, hprefix, if_neg Bool.false_ne_true, happend, ih]
      simp [written]
  | plain c cs hlead ih =>
    have hprefix : (written name.toList).isPrefixOf (c :: cs) = false :=
      Bool.eq_false_iff.mpr fun h ↦ leadingParam?_of_isPrefixOf hname h hlead
    rw [filled_plain hlead, Text.replaceFrom, hprefix, if_neg Bool.false_ne_true, ih]

theorem valueChars_singleton (v : Json) (n : List Char) : valueChars [(name, v)] n =
    if n = name.toList then (valueText v).toList else written n := by
  rw [valueChars, Members.find?]
  split
  · next heq => rw [if_pos (by rw [heq, String.toList_ofList])]; rfl
  · next hne => rw [if_neg (fun h ↦ hne (by rw [h, String.ofList_toList]))]; rfl

/-- A pass is the preview of one value. -/
theorem replaceAll_eq_resolved (hname : IsName name.toList) (v : Json) (text : String) :
    Text.replaceAll ("\x7b" ++ name ++ "\x7d") (valueText v) text = resolved text [(name, v)] := by
  rw [← String.toList_inj, toList_replaceAll hname, toList_resolved]
  exact congrArg (filled · text.toList) (funext fun n ↦ (valueChars_singleton v n).symm)

/-! ## All passes -/

/-- A part in which the brace occurs only around the name of a parameter. -/
def Part.Lacks (brace : Char) : Part → Prop
  | .text s => brace ∉ s.toList
  | .param name => IsName name.toList

/-- The brace occurs neither in the texts of the template nor in the values. -/
def Lacks (brace : Char) (template : String) (values : Members) : Prop :=
  (∀ s, .text s ∈ split template → brace ∉ s.toList) ∧
    ∀ m ∈ values, brace ∉ (valueText m.2).toList

theorem filled_append_of_opening (h : '\x7b' ∉ shown) :
    filled value (shown ++ cs) = shown ++ filled value cs := by
  induction shown with
  | nil => rfl
  | cons c shown ih =>
    rw [List.mem_cons, not_or] at h
    have hlead : leadingParam? (c :: (shown ++ cs)) = none := by
      rw [Option.eq_none_iff_forall_ne_some]
      rintro ⟨n, left⟩ hsome
      exact h.1 (List.cons.inj (leadingParam?_eq_some_iff.mp hsome).2).1.symm
    rw [List.cons_append, filled_plain hlead, ih h.2, List.cons_append]

/-- What comes before the next opening brace has no closing one. -/
def Shut (cs : List Char) : Prop := '\x7d' ∉ cs.takeWhile (· ≠ '\x7b')

theorem Shut.append (h : '\x7d' ∉ shown) (hcs : Shut cs) : Shut (shown ++ cs) := by
  induction shown with
  | nil => exact hcs
  | cons c shown ih =>
    rw [List.mem_cons, not_or] at h
    rw [Shut, List.cons_append, List.takeWhile_cons]
    split
    · rw [List.mem_cons, not_or]
      exact ⟨h.1, ih h.2⟩
    · exact List.not_mem_nil

/-- After an opening brace that is not closed before the next one, no parameter follows. -/
theorem Shut.leadingParam? (h : Shut cs) (c : Char) : leadingParam? (c :: cs) = none := by
  rw [Option.eq_none_iff_forall_ne_some]
  rintro ⟨n, left⟩ hsome
  obtain ⟨hn, heq⟩ := leadingParam?_eq_some_iff.mp hsome
  refine h ?_
  have hopen : ∀ d ∈ n, decide (d ≠ '\x7b') = true := fun d hd ↦ decide_eq_true fun hne ↦
    hn.not_mem_opening (hne ▸ hd)
  rw [(List.cons.inj heq).2, List.takeWhile_append_of_pos hopen,
    List.takeWhile_cons_of_pos (by decide)]
  exact List.mem_append_right _ List.mem_cons_self

theorem filled_append_of_closing (h : '\x7d' ∉ shown) (hcs : Shut cs) :
    filled value (shown ++ cs) = shown ++ filled value cs := by
  induction shown with
  | nil => rfl
  | cons c shown ih =>
    rw [List.mem_cons, not_or] at h
    rw [List.cons_append, filled_plain ((hcs.append h.2).leadingParam? c), ih h.2, List.cons_append]

theorem shut_of_lacks {parts : List Part} (h : ∀ part ∈ parts, part.Lacks '\x7d') :
    Shut (parts.flatMap (Part.chars written)) := by
  induction parts with
  | nil => exact List.not_mem_nil
  | cons part parts ih =>
    rw [List.flatMap_cons]
    have hpart := h part List.mem_cons_self
    cases part with
    | text s => exact (ih fun p hp ↦ h p (List.mem_cons_of_mem _ hp)).append hpart
    | param name => exact List.not_mem_nil

/-- **Parts are found again in their text** where one of the braces is kept for parameters. -/
theorem filled_flatMap {brace : Char} (hbrace : brace = '\x7b' ∨ brace = '\x7d')
    {parts : List Part} (h : ∀ part ∈ parts, part.Lacks brace) :
    filled value (parts.flatMap (Part.chars written)) = parts.flatMap (Part.chars value) := by
  induction parts with
  | nil => rfl
  | cons part parts ih =>
    have hpart := h part List.mem_cons_self
    have hparts : ∀ p ∈ parts, p.Lacks brace := fun p hp ↦ h p (List.mem_cons_of_mem _ hp)
    rw [List.flatMap_cons, List.flatMap_cons, ← ih hparts]
    cases part with
    | text s =>
      rcases hbrace with rfl | rfl
      · exact filled_append_of_opening hpart
      · exact filled_append_of_closing hpart (shut_of_lacks hparts)
    | param name =>
      rw [Part.chars, Part.chars, written, List.cons_append, List.append_assoc,
        List.singleton_append]
      exact filled_param hpart

/-- The part once its parameter has got a value. -/
def Part.put (name new : String) : Part → Part
  | .text s => .text s
  | .param n => if n = name then .text new else .param n

theorem chars_put (v : Json) (part : Part) :
    (part.put name (valueText v)).chars (valueChars rest) =
      part.chars (valueChars ((name, v) :: rest)) := by
  cases part with
  | text s => rfl
  | param n =>
    rw [Part.put, Part.chars, valueChars, Members.find?, String.ofList_toList]
    by_cases h : n = name
    · rw [if_pos h, if_pos h.symm]
      rfl
    · rw [if_neg h, if_neg (Ne.symm h), Part.chars, valueChars, String.ofList_toList]

theorem lacks_put {brace : Char} {part : Part} (h : part.Lacks brace) (hnew : brace ∉ new.toList) :
    (part.put name new).Lacks brace := by
  cases part with
  | text s => exact h
  | param n =>
    rw [Part.put]
    split
    · exact hnew
    · exact h

/-- The passes over a text whose parts can be told apart put in every value once. -/
theorem toList_substitute {brace : Char} (hbrace : brace = '\x7b' ∨ brace = '\x7d')
    {parts : List Part} (hparts : ∀ part ∈ parts, part.Lacks brace)
    (hnames : ∀ m ∈ values, IsName m.1.toList)
    (hvalues : ∀ m ∈ values, brace ∉ (valueText m.2).toList) {text : String}
    (htext : text.toList = parts.flatMap (Part.chars written)) :
    (substitute text values).toList = parts.flatMap (Part.chars (valueChars values)) := by
  induction values generalizing parts text with
  | nil => exact htext
  | cons m values ih =>
    obtain ⟨name, v⟩ := m
    have hname := hnames _ List.mem_cons_self
    have hv := hvalues _ List.mem_cons_self
    have hpass : (Text.replaceAll ("\x7b" ++ name ++ "\x7d") (valueText v) text).toList =
        (parts.map (Part.put name (valueText v))).flatMap (Part.chars written) := by
      rw [replaceAll_eq_resolved hname, toList_resolved, htext, filled_flatMap hbrace hparts,
        List.flatMap_map]
      exact List.flatMap_congr fun part _ ↦ (chars_put v part).symm
    rw [substitute, List.foldl_cons]
    refine (ih (fun p hp ↦ ?_) (fun m hm ↦ hnames m (List.mem_cons_of_mem _ hm))
      (fun m hm ↦ hvalues m (List.mem_cons_of_mem _ hm)) hpass).trans ?_
    · obtain ⟨part, hpart, rfl⟩ := List.mem_map.mp hp
      exact lacks_put (hparts part hpart) hv
    · rw [List.flatMap_map]
      exact List.flatMap_congr fun part _ ↦ chars_put v part

theorem substitute_eq_resolved {brace : Char} (hbrace : brace = '\x7b' ∨ brace = '\x7d')
    (hnames : ∀ m ∈ values, IsName m.1.toList) (h : Lacks brace template values) :
    substitute template values = resolved template values := by
  rw [← String.toList_inj, toList_resolved]
  refine toList_substitute hbrace (fun part hpart ↦ ?_) hnames h.2 (filled_written _).symm
  cases part with
  | text s => exact h.1 s hpart
  | param s => exact isName_of_mem_splitFrom hpart

/-- One pass after the other. -/
theorem substitute_eq_foldl (hnames : ∀ m ∈ values, IsName m.1.toList) :
    substitute template values = values.foldl (fun text m ↦ resolved text [m]) template := by
  induction values generalizing template with
  | nil => rfl
  | cons m values ih =>
    obtain ⟨name, v⟩ := m
    rw [List.foldl_cons, ← replaceAll_eq_resolved (hnames _ List.mem_cons_self)]
    exact ih fun m hm ↦ hnames m (List.mem_cons_of_mem _ hm)

end Template

/-! ## The compiled form -/

namespace Expr

variable {ρ : Type}

/-- The text that an expression amounts to, given that of everything but strings and their
concatenation. -/
def textBy (leaf : Expr ρ → String) : Expr ρ → String
  | literal (.string s) .string => s
  | binary .concat left right => left.textBy leaf ++ right.textBy leaf
  | e => leaf e

end Expr

theorem Rule.textBy_concatChain (leaf : BuiltExpr → String) (xs : List BuiltExpr) :
    (concatChain xs).textBy leaf = String.join (xs.map (Expr.textBy leaf)) := by
  induction xs with
  | nil => rfl
  | cons x xs ih =>
    rw [List.map_cons, String.join_cons, ← ih]
    cases xs with
    | nil => exact String.append_empty.symm
    | cons y ys => rfl

namespace Template

variable {template : String} {values : Members}

/-- The text of a part if the parameters, in their order, have the given values.  A parameter
without a value is empty. -/
def Part.given (params values : List String) : Part → String
  | .text s => s
  | .param name => values[params.idxOf name]?.getD ""

theorem mem_params {name : String} (h : .param name ∈ split template) : name ∈ params template :=
  List.mem_eraseDups.mpr (List.mem_filterMap.mpr ⟨_, h, rfl⟩)

theorem textBy_partExpr (leaf : BuiltExpr → String) {params : List String} (inputs : List BuiltExpr)
    {part : Part} (h : ∀ name, part = .param name → name ∈ params) :
    (Rule.partExpr params inputs part).textBy leaf =
      part.given params (inputs.map (Expr.textBy leaf)) := by
  cases part with
  | text s => rfl
  | param name =>
    obtain ⟨rank, hrank⟩ := Option.isSome_iff_exists.mp (List.isSome_idxOf?.mpr (h name rfl))
    have hidx : params.idxOf name = rank := by
      rw [List.idxOf_eq_getD_idxOf?, hrank]
      rfl
    rw [Rule.partExpr, Part.given, hidx, hrank, Option.bind_some, List.getElem?_map]
    cases inputs[rank]? <;> rfl

/-- **The compiled form replaces all parameters at once**, each by the input of its number. -/
theorem textBy_templateExpr (leaf : BuiltExpr → String) (template : String)
    (inputs : List BuiltExpr) : (Rule.templateExpr template inputs).textBy leaf =
      String.join ((split template).map
        (Part.given (params template) (inputs.map (Expr.textBy leaf)))) := by
  rw [Rule.templateExpr]
  split
  · next hempty =>
    rw [String.isEmpty_iff.mp hempty]
    rfl
  · rw [Rule.textBy_concatChain, List.map_map]
    refine congrArg String.join (List.map_congr_left fun part hpart ↦ ?_)
    exact textBy_partExpr leaf inputs fun name hname ↦ mem_params (hname ▸ hpart)

/-- The inputs have the values of the parameters, which are strings. -/
def Binds (leaf : BuiltExpr → String) (template : String) (values : Members)
    (inputs : List BuiltExpr) : Prop :=
  ∀ (rank : Nat) (name : String), (params template)[rank]? = some name → ∃ s, ∃ x : BuiltExpr,
    values.find? name = some (.string s) ∧ inputs[rank]? = some x ∧ x.textBy leaf = s

theorem textBy_templateExpr_of_binds {leaf : BuiltExpr → String} {inputs : List BuiltExpr}
    (h : Binds leaf template values inputs) :
    (Rule.templateExpr template inputs).textBy leaf = resolved template values := by
  rw [textBy_templateExpr, resolved]
  refine congrArg String.join (List.map_congr_left fun part hpart ↦ ?_)
  cases part with
  | text s => rfl
  | param name =>
    obtain ⟨s, x, hvalue, hinput, rfl⟩ := h _ name (List.getElem?_idxOf (mem_params hpart))
    rw [Part.given, List.getElem?_map, hinput, Part.resolved, hvalue]
    rfl

/-- That the preview shows what the template compiles to. -/
structure PreviewAgrees (template : String) (values : Members) : Prop where
  /-- It replaces all parameters at once. -/
  resolved : substitute template values = resolved template values
  /-- It is the text of the compiled form whenever the inputs have the values. -/
  compiled : ∀ leaf inputs, Binds leaf template values inputs →
    (Rule.templateExpr template inputs).textBy leaf = substitute template values

theorem previewAgrees_iff :
    PreviewAgrees template values ↔ substitute template values = resolved template values :=
  ⟨PreviewAgrees.resolved, fun heq ↦
    ⟨heq, fun _ _ hbinds ↦ (textBy_templateExpr_of_binds hbinds).trans heq.symm⟩⟩

/-- **What the preview shows.**  The names are replaced one after the other.  It shows the compiled
form if and only if this comes to replacing them at once, which it does if one of the braces is found
at parameters only. -/
theorem substitute_spec (hnames : ∀ m ∈ values, IsName m.1.toList) :
    substitute template values = values.foldl (fun text m ↦ Template.resolved text [m]) template ∧
      (PreviewAgrees template values ↔
        values.foldl (fun text m ↦ Template.resolved text [m]) template =
          Template.resolved template values) ∧
      (Lacks '\x7b' template values ∨ Lacks '\x7d' template values →
        PreviewAgrees template values) := by
  rw [previewAgrees_iff, ← substitute_eq_foldl hnames]
  refine ⟨rfl, Iff.rfl, fun h ↦ ?_⟩
  rcases h with h | h
  · exact substitute_eq_resolved (.inl rfl) hnames h
  · exact substitute_eq_resolved (.inr rfl) hnames h

/-- An address with a closing brace in one of the values. -/
theorem previewAgrees_address :
    (∀ m ∈ [("host", Json.string "h\x7d"), ("id", .number (.integer 42))], IsName m.1.toList) ∧
      PreviewAgrees "\x7bhost\x7d/api/\x7bid\x7d"
        [("host", .string "h\x7d"), ("id", .number (.integer 42))] := by
  have hnames : ∀ m ∈ [("host", Json.string "h\x7d"), ("id", .number (.integer 42))],
      IsName m.1.toList := by decide
  have hsplit : split "\x7bhost\x7d/api/\x7bid\x7d" =
      [.param "host", .text "/api/", .param "id"] := by decide
  refine ⟨hnames, (substitute_spec hnames).2.2 (.inl ⟨fun s hs ↦ ?_, by decide⟩)⟩
  simp only [hsplit, List.mem_cons, Part.text.injEq, reduceCtorEq, List.not_mem_nil, or_false,
    false_or] at hs
  rw [hs]
  decide

/-- A value that is a parameter itself is replaced by the next pass. -/
theorem not_previewAgrees_nested :
    ¬ PreviewAgrees "\x7ba\x7d" [("a", .string "\x7bb\x7d"), ("b", .string "x")] := by
  intro h
  have hshown := h.resolved
  revert hshown
  decide

end Template

end MappingGraph
