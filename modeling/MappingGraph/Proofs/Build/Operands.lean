import MappingGraph.Proofs.Build.Made
import MappingGraph.Proofs.Build.Schedule

/-!
# Operands

Most rules have places for their operands, and how many there are does not depend on the inputs of
the node.  `Rule.arity?` counts them, `Rule.fill` is the expression with an operand in every place,
and `Rule.unwired` is what stands in a place that gets no input: a setting, or else null, or the
empty string in a template.

A rule fills these places from the list of its inputs, one after the other (`Rule.build_eq_fill`).
Nothing about the operands is lost in the expression (`Rule.operand_eq_of_fill_eq`), except that a
switch without cases does not look at its first operand.
-/

set_option autoImplicit false

namespace MappingGraph.Rule

/-! ## Places for operands -/

/-- What stands for a part of a template, with an operand for each parameter. -/
def partWith (params : List String) (operand : Nat → BuiltExpr) : Template.Part → BuiltExpr
  | .text s => .string s
  | .param name => ((params.idxOf? name).map operand).getD (.string "")

/-- The parts of a template one after the other, with an operand for each parameter. -/
def templateWith (text : String) (operand : Nat → BuiltExpr) : BuiltExpr :=
  if text.isEmpty then .string ""
  else concatChain ((Template.split text).map (partWith (Template.params text) operand))

/-- Compares operand 0 with one case after the other; the operand of a case stands at its
position. -/
def switchWith (operand : Nat → BuiltExpr) : (position : Nat) → List Json → BuiltExpr
  | position, [] => operand position
  | position, c :: cs =>
    .conditional (.binary .equal (operand 0) (.ofJson c)) (operand position)
      (switchWith operand (position + 1) cs)

/-- How many operands a rule has places for; none if it takes its inputs as they come, or has no
use for any. -/
def arity? (rule : Rule) (config : Json) : Option Nat :=
  match rule with
  | binary _ => some 2
  | unary _ => some 1
  | conditional => some 3
  | defaultValue => some 2
  | switch => some ((cases config).length + 2)
  | template => some (Template.params (templateText config)).length
  | namedCall positional settings => some (positional + settings.length)
  | concat | constant | customCall | plainCall | missing => none

/-- The expression of a node with an operand in every place. -/
def fill (rule : Rule) (node : Node) (operand : Nat → BuiltExpr) : BuiltExpr :=
  match rule with
  | binary op => .binary op (operand 0) (operand 1)
  | unary op => .unary op (operand 0)
  | conditional => .conditional (operand 0) (operand 1) (operand 2)
  | defaultValue =>
    .conditional (.binary .notEqual (operand 0) .null) (operand 0) (operand 1)
  | switch => switchWith operand 1 (cases node.config)
  | template => templateWith (templateText node.config) operand
  | namedCall positional settings =>
    .call node.kind.name ((List.range (positional + settings.length)).map operand) none
  | concat | constant | customCall | plainCall | missing => .null

/-- What stands in a place that gets no input. -/
def unwired (rule : Rule) (config : Json) (position : Nat) : BuiltExpr :=
  match rule with
  | namedCall positional settings =>
    if position < positional then .null
    else (settings[position - positional]?.bind (setting? config)).getD .null
  | defaultValue => if position = 1 then (setting? config "defaultValue").getD .null else .null
  | template => .string ""
  | _ => .null

variable {rule : Rule} {node : Node} {config : Json} {inputs : List BuiltExpr} {arity : Nat}

theorem getD_setting?_literal (config : Json) (key? : Option String) :
    ∃ value type, (key?.bind (setting? config)).getD .null = .literal value type := by
  cases h : key?.bind (setting? config) with
  | none => exact ⟨_, _, rfl⟩
  | some e =>
    obtain ⟨key, _, hkey⟩ := Option.bind_eq_some_iff.mp h
    obtain ⟨value, _, rfl⟩ := Option.map_eq_some_iff.mp hkey
    exact ⟨_, _, rfl⟩

/-- What stands in a place without input is a literal. -/
theorem unwired_literal (rule : Rule) (config : Json) (position : Nat) :
    ∃ value type, rule.unwired config position = .literal value type := by
  cases rule with
  | namedCall positional settings =>
    rw [unwired]
    split
    · exact ⟨_, _, rfl⟩
    · exact getD_setting?_literal config _
  | defaultValue =>
    rw [unwired]
    split
    · exact getD_setting?_literal config (some "defaultValue")
    · exact ⟨_, _, rfl⟩
  | _ => exact ⟨_, _, rfl⟩

/-! ## From the inputs -/

theorem argument_eq (config : Json) (inputs : List BuiltExpr) (rank : Nat) (key : String) :
    argument config inputs rank key = inputs[rank]?.getD ((setting? config key).getD .null) := by
  rw [argument]
  cases inputs[rank]? <;> rfl

theorem arguments_eq (config : Json) (inputs : List BuiltExpr) (positional : Nat)
    (settings : List String) :
    arguments config inputs positional settings =
      (List.range (positional + settings.length)).map fun n ↦
        inputs[n]?.getD ((namedCall positional settings).unwired config n) := by
  rw [arguments, List.range_add, List.map_append]
  refine congrArg₂ _ (List.map_congr_left fun i hi ↦ ?_) (List.ext_getElem ?_ fun i hi _ ↦ ?_)
  · rw [Inputs.atRank, unwired, if_pos (List.mem_range.mp hi)]
  · rw [List.length_map, List.length_zipIdx, List.length_map, List.length_map, List.length_range]
  · have hkey : i < settings.length := by simpa using hi
    rw [List.getElem_map, List.getElem_zipIdx, List.getElem_map, List.getElem_map,
      List.getElem_range]
    show argument config inputs (positional + (0 + i)) settings[i] = _
    rw [argument_eq, unwired, if_neg (Nat.not_lt.mpr (Nat.le_add_right _ _)),
      Nat.add_sub_cancel_left, List.getElem?_eq_getElem hkey, Nat.zero_add]
    rfl

theorem switchFrom_eq (inputs : List BuiltExpr) (rank : Nat) (cs : List Json) :
    switchFrom inputs rank cs = switchWith (Inputs.atRank inputs) rank cs := by
  induction cs generalizing rank with
  | nil => rfl
  | cons c cs ih => rw [switchFrom, switchWith, ih]

theorem templateExpr_eq (text : String) (inputs : List BuiltExpr) :
    templateExpr text inputs = templateWith text fun n ↦ inputs[n]?.getD (.string "") := by
  rw [templateExpr, templateWith]
  refine congrArg _ (congrArg _ (List.map_congr_left fun part _ ↦ ?_))
  cases part with
  | text s => rfl
  | param name =>
    rw [partExpr, partWith]
    cases (Template.params text).idxOf? name <;> rfl

/-- **The operands are the inputs by rank.**  A rule puts the first input in the first place and so
on, and what it has for a place without input in the rest. -/
theorem build_eq_fill (harity : rule.arity? node.config = some arity) (inputs : List BuiltExpr) :
    rule.build node inputs =
      rule.fill node fun n ↦ inputs[n]?.getD (rule.unwired node.config n) := by
  cases rule with
  | binary | unary | conditional => rfl
  | defaultValue => rw [build, defaultExpr, argument_eq]; rfl
  | switch => exact switchFrom_eq inputs 1 _
  | template => exact templateExpr_eq _ inputs
  | namedCall positional settings => rw [build, arguments_eq]; rfl
  | concat | constant | customCall | plainCall | missing => cases harity

variable {f g : Nat → BuiltExpr}

theorem switchWith_congr {position : Nat} {cs : List Json} (h₀ : f 0 = g 0)
    (h : ∀ n ≤ position + cs.length, f n = g n) :
    switchWith f position cs = switchWith g position cs := by
  induction cs generalizing position with
  | nil => exact h position (Nat.le_refl _)
  | cons c cs ih =>
    have hrest : ∀ n ≤ position + 1 + cs.length, f n = g n := fun n hn ↦
      h n (Nat.add_right_comm position 1 cs.length ▸ hn)
    rw [switchWith, switchWith, h₀, h position (Nat.le_add_right _ _), ih hrest]

theorem templateWith_congr {text : String} (h : ∀ n < (Template.params text).length, f n = g n) :
    templateWith text f = templateWith text g := by
  rw [templateWith, templateWith]
  refine congrArg _ (congrArg _ (List.map_congr_left fun part _ ↦ ?_))
  cases part with
  | text s => rfl
  | param name =>
    rw [partWith, partWith]
    cases hidx : (Template.params text).idxOf? name with
    | none => rfl
    | some n =>
      obtain ⟨hn, -⟩ := List.idxOf?_eq_some_iff.mp hidx
      exact h n hn

/-- Only the operands in the places of a rule matter. -/
theorem fill_congr (harity : rule.arity? node.config = some arity) (h : ∀ n < arity, f n = g n) :
    rule.fill node f = rule.fill node g := by
  cases rule with
  | binary | unary | conditional | defaultValue =>
    cases harity
    simp [fill, h]
  | switch =>
    cases harity
    exact switchWith_congr (h 0 (Nat.succ_pos _)) fun n hn ↦ h n (by omega)
  | template =>
    cases harity
    exact templateWith_congr h
  | namedCall positional settings =>
    cases harity
    rw [fill, fill, List.map_congr_left fun n hn ↦ h n (List.mem_range.mp hn)]
  | concat | constant | customCall | plainCall | missing => rfl

/-! ## Back to the operands -/

/-- Chains of equally many expressions are equal only if the expressions are. -/
theorem concatChain_inj {xs ys : List BuiltExpr} (hlength : xs.length = ys.length)
    (h : concatChain xs = concatChain ys) : xs = ys := by
  fun_induction concatChain xs generalizing ys with
  | case1 => exact (List.length_eq_zero_iff.mp hlength.symm).symm
  | case2 x =>
    obtain ⟨y, rfl⟩ := List.length_eq_one_iff.mp hlength.symm
    rw [h, concatChain]
  | case3 x xs hne ih =>
    obtain ⟨y, ys, rfl⟩ := List.exists_cons_of_length_eq_add_one hlength.symm
    have htails : xs.length = ys.length := Nat.succ.inj hlength
    have hys : ys = [] → False := by
      rintro rfl
      exact hne (List.length_eq_zero_iff.mp htails)
    rw [concatChain.eq_3 y ys hys] at h
    obtain ⟨-, rfl, htail⟩ := Expr.binary.inj h
    rw [ih htails htail]

theorem switchWith_inj {position : Nat} {cs : List Json}
    (h : switchWith f position cs = switchWith g position cs) :
    (cs ≠ [] → f 0 = g 0) ∧ ∀ n ≤ cs.length, f (position + n) = g (position + n) := by
  induction cs generalizing position with
  | nil =>
    refine ⟨fun hne ↦ absurd rfl hne, fun n hn ↦ ?_⟩
    rw [Nat.le_zero.mp hn]
    exact h
  | cons c cs ih =>
    obtain ⟨hcase, hthis, hrest⟩ := Expr.conditional.inj h
    refine ⟨fun _ ↦ (Expr.binary.inj hcase).2.1, fun n hn ↦ ?_⟩
    cases n with
    | zero => exact hthis
    | succ n =>
      rw [Nat.add_left_comm position n 1, Nat.add_comm n]
      exact (ih hrest).2 n (Nat.le_of_succ_le_succ hn)

/-- A template holds every parameter, so every operand is in its expression. -/
theorem templateWith_inj {text : String} (h : templateWith text f = templateWith text g) {n : Nat}
    (hn : n < (Template.params text).length) : f n = g n := by
  have hname : (Template.params text)[n] ∈ Template.params text := List.getElem_mem hn
  obtain ⟨part, hpart, hparam⟩ := List.mem_filterMap.mp (List.mem_eraseDups.mp hname)
  cases part with
  | text s => cases hparam
  | param name =>
    have hidx : (Template.params text).idxOf? name = some n :=
      List.idxOf?_eq_some_iff.mpr ⟨hn, (Option.some.inj hparam).symm, fun j hj heq ↦
        absurd ((nodup_eraseDups _).getElem_inj_iff.mp (heq.trans (Option.some.inj hparam)))
          (Nat.ne_of_lt hj)⟩
    rw [templateWith, templateWith] at h
    split_ifs at h with hempty
    · rw [String.isEmpty_iff.mp hempty] at hn
      exact absurd hn (Nat.not_lt_zero n)
    · have hparts := List.map_inj_left.mp (concatChain_inj (by simp) h) _ hpart
      rwa [partWith, partWith, hidx] at hparts

/-- **The operands are told by the expression.** -/
theorem operand_eq_of_fill_eq (harity : rule.arity? node.config = some arity)
    (hswitch : rule = .switch → cases node.config ≠ []) (h : rule.fill node f = rule.fill node g)
    {n : Nat} (hn : n < arity) : f n = g n := by
  cases rule with
  | binary op =>
    cases harity
    obtain ⟨-, h₀, h₁⟩ := Expr.binary.inj h
    match n with
    | 0 => exact h₀
    | 1 => exact h₁
  | unary op =>
    cases harity
    match n with
    | 0 => exact (Expr.unary.inj h).2
  | conditional =>
    cases harity
    obtain ⟨h₀, h₁, h₂⟩ := Expr.conditional.inj h
    match n with
    | 0 => exact h₀
    | 1 => exact h₁
    | 2 => exact h₂
  | defaultValue =>
    cases harity
    obtain ⟨-, h₀, h₁⟩ := Expr.conditional.inj h
    match n with
    | 0 => exact h₀
    | 1 => exact h₁
  | switch =>
    cases harity
    obtain ⟨h₀, hrest⟩ := switchWith_inj h
    cases n with
    | zero => exact h₀ (hswitch rfl)
    | succ n =>
      rw [Nat.add_comm n 1]
      exact hrest n (Nat.le_of_lt_succ (Nat.lt_of_succ_lt_succ hn))
  | template =>
    cases harity
    exact templateWith_inj h hn
  | namedCall positional settings =>
    cases harity
    exact List.map_inj_left.mp (Expr.call.inj h).2.1 n (List.mem_range.mpr hn)
  | concat | constant | customCall | plainCall | missing => cases harity

end MappingGraph.Rule
