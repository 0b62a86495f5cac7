import MappingGraph.Build.Rules
import MappingGraph.Proofs.Constant
import MappingGraph.Proofs.Json.Pointer

/-!
# What a built expression is made of

The construction rules put inputs and literals together with operators, and some of them make one
call of the outcome.  `Rule.Made` describes what is put together without a call, there is one lemma
about it for each helper of the rules, and `Rule.build_made` says of every rule which call it makes
and what its arguments are made of.

Three things follow at once.  The references of a built expression are those of the inputs; of the
functions it calls all but one are called in the inputs; and its literals are those of the inputs and
values that the settings supply (`Rule.Supplied`), marked with their type or, in a constant, with the
type that is declared (`Rule.Marks`).
-/

set_option autoImplicit false

namespace MappingGraph

theorem Kind.rule_eq_constant_iff {kind : Kind} : kind.rule = .constant ↔ kind = .constant := by
  cases kind <;> simp [rule]

namespace Rule

variable {rule : Rule} {inputs : List BuiltExpr} {config : Json} {x y z : BuiltExpr}

/-! ## What settings supply -/

/-- The values that a node with the settings can bring in as literals: scalars, the settings, values
written in a text, and what is inside of any of these. -/
inductive Supplied (config : Json) : Json → Prop
  | null : Supplied config .null
  | bool (value : Bool) : Supplied config (.bool value)
  | number (value : Number) : Supplied config (.number value)
  | string (value : String) : Supplied config (.string value)
  | settings : Supplied config config
  | read {text : String} {value : Json} (h : Json.ofText? text = .ok value) : Supplied config value
  | item {xs : List Json} {value : Json} (hxs : Supplied config (.array xs)) (h : value ∈ xs) :
    Supplied config value
  | member {ms : Members} {m : String × Json} (hms : Supplied config (.object ms)) (h : m ∈ ms) :
    Supplied config m.2

theorem Supplied.get? {v w : Json} (hv : Supplied config v) {key : String}
    (h : v.get? key = some w) : Supplied config w := by
  cases v with
  | object ms => exact hv.member (Members.mem_of_find? h)
  | _ => cases h

theorem supplied_given (config : Json) : Supplied config (Constant.given config) := by
  rw [Constant.given]
  cases h : config.get? "value" with
  | none => exact .null
  | some v => exact Supplied.settings.get? h

theorem supplied_of_gives {v : Json} (h : Constant.Gives (Constant.given config) v) :
    Supplied config v := by
  rcases h with rfl | ⟨s, -, hread⟩
  · exact supplied_given config
  · exact .read hread

theorem supplied_of_denotes {v : Json} (h : Constant.Denotes config v) : Supplied config v := by
  cases h with
  | string => exact .string _
  | null => exact .null
  | true | false => exact .bool _
  | integer | number => exact .number _
  | array _ hv | object _ hv | list _ hv => exact supplied_of_gives hv

theorem supplied_of_mem_cases {v : Json} (h : v ∈ cases config) : Supplied config v := by
  obtain ⟨case, hcase, rfl⟩ := List.mem_map.mp h
  have hsupplied : Supplied config case := by
    cases hget : config.get? "cases" with
    | none => rw [hget] at hcase; exact absurd hcase List.not_mem_nil
    | some w =>
      rw [hget] at hcase
      cases w with
      | array xs => exact (Supplied.settings.get? hget).item hcase
      | _ => exact absurd hcase List.not_mem_nil
  rw [caseValue]
  cases hget : case.get? "value" with
  | none => exact hsupplied
  | some w => exact hsupplied.get? hget

/-! ## How literals are marked -/

/-- The types that a rule marks a value with: that of the value, and for a number given to a constant
that is to be one also this, even if it is whole. -/
inductive Marks (rule : Rule) (config value : Json) : LiteralType → Prop
  | own : Marks rule config value (LiteralType.of value)
  | declared {n : Number} (hrule : rule = .constant) (htype : Constant.Declares config "number")
    (hgiven : Constant.given config = .number n) (hvalue : value = .number n) :
    Marks rule config value .number

theorem marks_of_denotes {v : Json} (h : Constant.Denotes config v) : Marks .constant config v
    (if Constant.declaredType config = "number" then .number else LiteralType.of v) := by
  split
  · next htype =>
    have hne := fun {type : String} (h : Constant.Declares config type) ↦
      (Constant.declares_iff.mp h).symm.trans htype
    cases h with
    | @number n h hv =>
      rcases hv with hgiven | ⟨-, x, -, rfl⟩
      · exact .declared rfl h hgiven rfl
      · exact .own
    | string h | null h | true h | false h | integer h | array h | object h | list h =>
      exact absurd (hne h) (by decide)
  · exact .own

/-! ## Without a call -/

/-- The expressions that are put together of inputs and supplied literals with operators. -/
inductive Made (rule : Rule) (config : Json) (inputs : List BuiltExpr) : BuiltExpr → Prop
  | input {x : BuiltExpr} (h : x ∈ inputs) : Made rule config inputs x
  | literal {value : Json} {type : LiteralType} (h : Supplied config value)
    (hmark : Marks rule config value type) : Made rule config inputs (.literal value type)
  | literals {values : List Json} (h : ∀ v ∈ values, Supplied config v) :
    Made rule config inputs (Constant.arrayOf values)
  | members {values : Members} (h : ∀ m ∈ values, Supplied config m.2) :
    Made rule config inputs (Constant.objectOf values)
  | binary (op : BinaryOp) {x y : BuiltExpr} (hx : Made rule config inputs x)
    (hy : Made rule config inputs y) : Made rule config inputs (.binary op x y)
  | unary (op : UnaryOp) {x : BuiltExpr} (hx : Made rule config inputs x) :
    Made rule config inputs (.unary op x)
  | conditional {x y z : BuiltExpr} (hx : Made rule config inputs x)
    (hy : Made rule config inputs y) (hz : Made rule config inputs z) :
    Made rule config inputs (.conditional x y z)

theorem made_null : Made rule config inputs .null := .literal .null .own

theorem made_string (s : String) : Made rule config inputs (.string s) := .literal (.string s) .own

theorem made_getElem? {i : Nat} (h : inputs[i]? = some x) : Made rule config inputs x :=
  .input (List.mem_of_getElem? h)

theorem made_atRank (rank : Nat) : Made rule config inputs (Inputs.atRank inputs rank) := by
  rw [Inputs.atRank]
  cases h : inputs[rank]? with
  | none => exact made_null
  | some e => exact made_getElem? h

theorem made_concatChain {xs : List BuiltExpr} (h : ∀ x ∈ xs, Made rule config inputs x) :
    Made rule config inputs (concatChain xs) := by
  fun_induction concatChain xs with
  | case1 => exact made_string ""
  | case2 x => exact h x (List.mem_singleton_self x)
  | case3 x xs _ ih =>
    exact .binary _ (h x List.mem_cons_self) (ih fun y hy ↦ h y (List.mem_cons_of_mem x hy))

theorem made_argument (rank : Nat) (key : String) :
    Made rule config inputs (argument config inputs rank key) := by
  rw [argument]
  cases h : inputs[rank]? with
  | some e => exact made_getElem? h
  | none =>
    rw [setting?]
    cases hv : (config.get? key).filter (!·.isNull) with
    | none => exact made_null
    | some v => exact .literal (Supplied.settings.get? (Option.eq_some_of_filter_eq_some hv)) .own

theorem made_of_mem_arguments {positional : Nat} {settings : List String}
    (h : x ∈ arguments config inputs positional settings) : Made rule config inputs x := by
  rcases List.mem_append.mp h with h | h
  · obtain ⟨i, _, rfl⟩ := List.mem_map.mp h
    exact made_atRank i
  · obtain ⟨⟨key, i⟩, _, rfl⟩ := List.mem_map.mp h
    exact made_argument _ _

theorem made_partExpr (params : List String) (part : Template.Part) :
    Made rule config inputs (partExpr params inputs part) := by
  cases part with
  | text s => exact made_string s
  | param name =>
    rw [partExpr]
    cases h : (params.idxOf? name).bind (inputs[·]?) with
    | none => exact made_string ""
    | some e =>
      obtain ⟨i, _, hi⟩ := Option.bind_eq_some_iff.mp h
      exact made_getElem? hi

theorem made_templateExpr (text : String) : Made rule config inputs (templateExpr text inputs) := by
  rw [templateExpr]
  split
  · exact made_string ""
  · refine made_concatChain fun x hx ↦ ?_
    obtain ⟨part, _, rfl⟩ := List.mem_map.mp hx
    exact made_partExpr _ part

theorem made_switchFrom (rank : Nat) {cs : List Json} (h : ∀ c ∈ cs, Supplied config c) :
    Made rule config inputs (switchFrom inputs rank cs) := by
  induction cs generalizing rank with
  | nil => exact made_atRank rank
  | cons c cs ih =>
    exact .conditional (.binary _ (made_atRank 0) (.literal (h c List.mem_cons_self) .own))
      (made_atRank rank) (ih (rank + 1) fun d hd ↦ h d (List.mem_cons_of_mem c hd))

/-- A constant that can be read is a literal, or a list or an object of them. -/
theorem made_of_parse? (h : Constant.parse? config = .ok x) : Made .constant config inputs x := by
  obtain ⟨v, hv, rfl⟩ := Constant.exists_denotes_of_parse? h
  have hsupplied := supplied_of_denotes hv
  cases v with
  | array xs => exact .literals fun v hv ↦ hsupplied.item hv
  | object ms => exact .members fun m hm ↦ hsupplied.member hm
  | _ => exact .literal hsupplied (marks_of_denotes hv)

theorem made_constantExpr (config : Json) : Made .constant config inputs (constantExpr config) := by
  rw [constantExpr]
  split
  · next e h => exact made_of_parse? h
  · exact made_string _

/-! ## The call of a rule -/

/-- The function that a rule calls and the settings it passes along, if it makes a call. -/
def callee? (rule : Rule) (node : Node) : Option (String × Option Json) :=
  match rule with
  | .namedCall _ _ | .plainCall => some (node.kind.name, none)
  | .customCall => some (functionName node.config, some node.config)
  | _ => none

/-- **What a rule builds is put together of its inputs, or it is one call of such expressions.** -/
theorem build_made (rule : Rule) (node : Node) :
    (rule.callee? node = none → Made rule node.config inputs (rule.build node inputs)) ∧
      ∀ callee, rule.callee? node = some callee → ∃ args,
        rule.build node inputs = .call callee.1 args callee.2 ∧
          ∀ x ∈ args, Made rule node.config inputs x := by
  cases rule with
  | namedCall positional settings =>
    refine ⟨nofun, fun callee h ↦ ?_⟩
    rw [← Option.some.inj h]
    exact ⟨_, rfl, fun _ ↦ made_of_mem_arguments⟩
  | customCall | plainCall =>
    refine ⟨nofun, fun callee h ↦ ?_⟩
    rw [← Option.some.inj h]
    exact ⟨inputs, rfl, fun _ ↦ .input⟩
  | binary op => exact ⟨fun _ ↦ .binary _ (made_atRank 0) (made_atRank 1), nofun⟩
  | unary op => exact ⟨fun _ ↦ .unary _ (made_atRank 0), nofun⟩
  | concat => exact ⟨fun _ ↦ made_concatChain fun _ ↦ .input, nofun⟩
  | template => exact ⟨fun _ ↦ made_templateExpr _, nofun⟩
  | conditional =>
    exact ⟨fun _ ↦ .conditional (made_atRank 0) (made_atRank 1) (made_atRank 2),
      nofun⟩
  | defaultValue =>
    exact ⟨fun _ ↦ .conditional (.binary _ (made_atRank 0) made_null) (made_atRank 0)
      (made_argument 1 _), nofun⟩
  | switch => exact ⟨fun _ ↦ made_switchFrom 1 fun _ ↦ supplied_of_mem_cases, nofun⟩
  | constant => exact ⟨fun _ ↦ made_constantExpr _, nofun⟩
  | missing => exact ⟨fun _ ↦ made_null, nofun⟩

end Rule

namespace Node

variable {registry : Registry} {node : Node} {inputs : List BuiltExpr}

/-- The function that the expression of a node calls with its inputs. -/
def callee? (registry : Registry) (node : Node) : Option (String × Option Json) :=
  if registry.contains node.kind then node.kind.rule.callee? node else none

theorem made_of_callee?_eq_none (h : node.callee? registry = none) :
    Rule.Made node.kind.rule node.config inputs (node.build registry inputs) := by
  rw [callee?] at h
  rw [build]
  split
  · next hr =>
    rw [if_pos hr] at h
    exact (Rule.build_made _ node).1 h
  · exact Rule.made_null

theorem build_of_callee? {callee : String × Option Json} (h : node.callee? registry = some callee) :
    ∃ args, node.build registry inputs = .call callee.1 args callee.2 ∧
      ∀ x ∈ args, Rule.Made node.kind.rule node.config inputs x := by
  rw [callee?] at h
  rw [build]
  split
  · next hr =>
    rw [if_pos hr] at h
    exact (Rule.build_made _ node).2 callee h
  · next hr =>
    rw [if_neg hr] at h
    cases h

end Node

/-! ## References -/

theorem Rule.Made.exists_input_of_mem_refs {rule : Rule} {config : Json} {inputs : List BuiltExpr}
    {e : BuiltExpr} (h : Made rule config inputs e) {p : Placeholder} (hp : p ∈ e.refs) :
    ∃ x ∈ inputs, p ∈ x.refs := by
  induction h with
  | input h => exact ⟨_, h, hp⟩
  | literal => exact absurd hp List.not_mem_nil
  | literals =>
    rw [Constant.arrayOf, Expr.refs, Expr.refsOfList_eq_flatMap, List.flatMap_map] at hp
    obtain ⟨v, _, hp⟩ := List.mem_flatMap.mp hp
    exact absurd hp List.not_mem_nil
  | members =>
    rw [Constant.objectOf, Expr.refs, Expr.refsOfEntries_eq_flatMap, List.flatMap_map] at hp
    obtain ⟨m, _, hp⟩ := List.mem_flatMap.mp hp
    exact absurd hp List.not_mem_nil
  | binary op _ _ ihx ihy => exact (List.mem_append.mp hp).elim ihx ihy
  | unary op _ ih => exact ih hp
  | conditional _ _ _ ihx ihy ihz =>
    rw [Expr.refs, List.mem_append, List.mem_append] at hp
    exact hp.elim (fun h ↦ h.elim ihx ihy) ihz

/-- A node refers to what its inputs refer to. -/
theorem Node.exists_input_of_mem_refs {registry : Registry} {node : Node} {inputs : List BuiltExpr}
    {p : Placeholder} (h : p ∈ (node.build registry inputs).refs) : ∃ x ∈ inputs, p ∈ x.refs := by
  cases hc : node.callee? registry with
  | none => exact (Node.made_of_callee?_eq_none hc).exists_input_of_mem_refs h
  | some callee =>
    obtain ⟨args, hbuild, hargs⟩ := @Node.build_of_callee? registry node inputs callee hc
    rw [hbuild, Expr.refs, Expr.refsOfList_eq_flatMap] at h
    obtain ⟨x, hx, h⟩ := List.mem_flatMap.mp h
    exact (hargs x hx).exists_input_of_mem_refs h

end MappingGraph
