import Mathlib.Data.List.Forall2
import MappingGraph.Build.Rules

/-!
# What a switch evaluates to

A switch is compiled to a chain of conditionals, each of which compares the first input with a case.
What such a chain evaluates to depends on the interpretation of expressions, of which nothing is
needed but that a conditional takes a branch according to its condition, and that the condition says
whether two values are the same (`Interprets`).

The value is that of the input that belongs to the first matching case (`Rule.TakesFirst`).  Behind
this is that cases that do not match may be dropped from the front, where the inputs move up by as
many places (`Rule.eval_switchFrom_append`).
-/

set_option autoImplicit false

namespace MappingGraph

variable {V : Type}

/-- An interpretation of expressions by values: `holds` tells which values count as true, and `same`
which are equal to each other. -/
structure Interprets (eval : BuiltExpr → V) (holds : V → Prop) (same : V → V → Prop) : Prop where
  equal : ∀ x y, holds (eval (.binary .equal x y)) ↔ same (eval x) (eval y)
  yes : ∀ c x y, holds (eval c) → eval (.conditional c x y) = eval x
  no : ∀ c x y, ¬ holds (eval c) → eval (.conditional c x y) = eval y

/-- The value of an expression that compares fields and literals, given the values of the fields.
Two values are the same if they are written alike. -/
def Expr.valueOf {ρ : Type} (fields : String → Json) : Expr ρ → Json
  | literal value _ => value
  | field path => fields path
  | binary .equal left right =>
    .bool ((left.valueOf fields).compact = (right.valueOf fields).compact)
  | conditional condition yes no =>
    match condition.valueOf fields with
    | .bool true => yes.valueOf fields
    | _ => no.valueOf fields
  | _ => .null

theorem interprets_valueOf (fields : String → Json) :
    Interprets (Expr.valueOf fields) (· = .bool true) (fun x y ↦ x.compact = y.compact) where
  equal x y := by rw [Expr.valueOf, Json.bool.injEq, decide_eq_true_iff]
  yes c x y hc := by rw [Expr.valueOf, hc]
  no c x y hc := by
    rw [Expr.valueOf]
    split
    · next h => exact absurd h hc
    · rfl

namespace Rule

variable {eval : BuiltExpr → V} {holds : V → Prop} {same : V → V → Prop} {config : Json}
  {inputs : List BuiltExpr} {values : List Json}

/-! ## The cases of a switch -/

/-- The case asks for the value: it is an object with a member `value`, or else the value itself. -/
inductive AsksFor : (case value : Json) → Prop
  | member {ms : Members} {value : Json} (h : Members.find? "value" ms = some value) :
    AsksFor (.object ms) value
  | plain {case : Json} (h : ∀ ms, case = .object ms → Members.find? "value" ms = none) :
    AsksFor case case

/-- The values that the cases in the settings of a switch ask for.  There is no case where the
settings have no list of them. -/
inductive HasCases (config : Json) : List Json → Prop
  | listed {xs values : List Json} (h : config.get? "cases" = some (.array xs))
    (hvalues : List.Forall₂ AsksFor xs values) : HasCases config values
  | none (h : ∀ xs, config.get? "cases" ≠ some (.array xs)) : HasCases config []

theorem asksFor_iff {case value : Json} : AsksFor case value ↔ value = caseValue case := by
  constructor
  · rintro (h | h)
    · rw [caseValue, Json.get?, h, Option.getD_some]
    · cases hget : case.get? "value" with
      | none => rw [caseValue, hget, Option.getD_none]
      | some v =>
        cases case with
        | object ms => rw [Json.get?, h ms rfl] at hget; cases hget
        | _ => cases hget
  · rintro rfl
    rw [caseValue]
    cases hget : case.get? "value" with
    | none =>
      refine .plain fun ms heq ↦ ?_
      rw [heq] at hget
      exact hget
    | some v =>
      cases case with
      | object ms => exact .member hget
      | _ => cases hget

theorem forall₂_asksFor (xs : List Json) : List.Forall₂ AsksFor xs (xs.map caseValue) := by
  rw [List.forall₂_map_right_iff, List.forall₂_same]
  exact fun x _ ↦ asksFor_iff.mpr rfl

/-- **The cases are read off the settings.** -/
theorem hasCases_iff : HasCases config values ↔ values = cases config := by
  constructor
  · rintro (⟨hget, hvalues⟩ | hget)
    · rw [cases, hget, Option.bind_some, Json.items?, Option.getD_some]
      clear hget
      induction hvalues with
      | nil => rfl
      | cons hcase _ ih => rw [List.map_cons, ← asksFor_iff.mp hcase, ih]
    · rw [cases]
      cases hc : config.get? "cases" with
      | none => rfl
      | some v =>
        cases v with
        | array xs => exact absurd hc (hget xs)
        | _ => rfl
  · rintro rfl
    rw [cases]
    cases hc : config.get? "cases" with
    | none => exact .none fun xs h ↦ nomatch hc.symm.trans h
    | some v =>
      cases v with
      | array xs => exact .listed hc (forall₂_asksFor xs)
      | _ => exact .none fun xs h ↦ nomatch hc.symm.trans h

/-! ## The chain of conditionals -/

/-- The case asks for the value of the first input. -/
def Matches (eval : BuiltExpr → V) (same : V → V → Prop) (inputs : List BuiltExpr)
    (value : Json) : Prop :=
  same (eval (Inputs.atRank inputs 0)) (eval (.ofJson value))

/-- Cases in front that do not match are passed over. -/
theorem eval_switchFrom_append (h : Interprets eval holds same) {before : List Json}
    (hbefore : ∀ v ∈ before, ¬ Matches eval same inputs v) (rank : Nat) (rest : List Json) :
    eval (switchFrom inputs rank (before ++ rest)) =
      eval (switchFrom inputs (rank + before.length) rest) := by
  induction before generalizing rank with
  | nil => rfl
  | cons v before ih =>
    have hno : ¬ holds (eval (.binary .equal (Inputs.atRank inputs 0) (.ofJson v))) := fun hholds ↦
      hbefore v List.mem_cons_self ((h.equal _ _).mp hholds)
    rw [List.cons_append, switchFrom, h.no _ _ _ hno,
      ih (fun w hw ↦ hbefore w (List.mem_cons_of_mem v hw)), List.length_cons,
      Nat.add_right_comm, Nat.add_assoc]

theorem eval_switchFrom_cons (h : Interprets eval holds same) {v : Json}
    (hv : Matches eval same inputs v) (rank : Nat) (rest : List Json) :
    eval (switchFrom inputs rank (v :: rest)) = eval (Inputs.atRank inputs rank) := by
  rw [switchFrom, h.yes _ _ _ ((h.equal _ _).mpr hv)]

/-- A switch with the values of its cases evaluates to the input of the first case that matches. -/
structure TakesFirst (eval : BuiltExpr → V) (same : V → V → Prop) (config : Json)
    (values : List Json) (inputs : List BuiltExpr) : Prop where
  /-- The inputs of the cases come after the one that is compared. -/
  first : ∀ before v after, values = before ++ v :: after → Matches eval same inputs v →
    (∀ w ∈ before, ¬ Matches eval same inputs w) →
      eval (switchExpr config inputs) = eval (inputs[before.length + 1]?.getD .null)
  otherwise : (∀ v ∈ values, ¬ Matches eval same inputs v) →
    eval (switchExpr config inputs) = eval (inputs[values.length + 1]?.getD .null)
  /-- The input of a case that was there before makes no difference. -/
  repeated : ∀ i j, i < j → j < values.length → values[i]? = values[j]? →
    ∀ others : List BuiltExpr, (∀ k, k ≠ j + 1 → others[k]? = inputs[k]?) →
      eval (switchExpr config others) = eval (switchExpr config inputs)

theorem eval_of_first (h : Interprets eval holds same) {before after : List Json} {v : Json}
    (hcases : cases config = before ++ v :: after) (hv : Matches eval same inputs v)
    (hbefore : ∀ w ∈ before, ¬ Matches eval same inputs w) :
    eval (switchExpr config inputs) = eval (Inputs.atRank inputs (before.length + 1)) := by
  rw [switchExpr, hcases, eval_switchFrom_append h hbefore, eval_switchFrom_cons h hv, Nat.add_comm]

theorem eval_of_forall_not (h : Interprets eval holds same)
    (hnone : ∀ v ∈ cases config, ¬ Matches eval same inputs v) :
    eval (switchExpr config inputs) = eval (Inputs.atRank inputs ((cases config).length + 1)) := by
  have hpassed := eval_switchFrom_append h hnone 1 []
  rw [List.append_nil] at hpassed
  rw [switchExpr, hpassed, switchFrom, Nat.add_comm]

/-- There is a first case that matches, or there is none. -/
theorem exists_first_or_forall_not (p : Json → Prop) (values : List Json) :
    (∃ before v after, values = before ++ v :: after ∧ p v ∧ ∀ w ∈ before, ¬ p w) ∨
      ∀ v ∈ values, ¬ p v := by
  classical
  cases hfind : values.find? p with
  | none => exact .inr (by simpa using hfind)
  | some v =>
    obtain ⟨hv, before, after, heq, hbefore⟩ := List.find?_eq_some_iff_append.mp hfind
    exact .inl ⟨before, v, after, heq, by simpa using hv, by simpa using hbefore⟩

/-- The input of a case that was there before makes no difference: it is not that of the first case
that matches. -/
theorem eval_eq_of_repeated (h : Interprets eval holds same) {i j : Nat} (hij : i < j)
    (hj : j < (cases config).length) (hsame : (cases config)[i]? = (cases config)[j]?)
    {others : List BuiltExpr} (hothers : ∀ k, k ≠ j + 1 → others[k]? = inputs[k]?) :
    eval (switchExpr config others) = eval (switchExpr config inputs) := by
  have hrank : ∀ k, k ≠ j + 1 → Inputs.atRank others k = Inputs.atRank inputs k := fun k hk ↦ by
    rw [Inputs.atRank, Inputs.atRank, hothers k hk]
  have hmatches : Matches eval same others = Matches eval same inputs := by
    funext v
    rw [Matches, Matches, hrank 0 (Nat.succ_ne_zero j).symm]
  rcases exists_first_or_forall_not (Matches eval same inputs) (cases config) with
    ⟨before, v, after, heq, hv, hbefore⟩ | hnone
  · have hne : before.length ≠ j := by
      rintro rfl
      rw [heq, List.getElem?_append_left hij, List.getElem?_append_right (Nat.le_refl _),
        Nat.sub_self, List.getElem?_cons_zero] at hsame
      exact hbefore v (List.mem_of_getElem? hsame) hv
    rw [eval_of_first h heq hv hbefore,
      eval_of_first h heq (hmatches ▸ hv) (fun w hw ↦ hmatches ▸ hbefore w hw),
      hrank _ fun heq' ↦ hne (Nat.succ.inj heq')]
  · rw [eval_of_forall_not h hnone, eval_of_forall_not h (fun w hw ↦ hmatches ▸ hnone w hw),
      hrank _ fun heq' ↦ Nat.ne_of_gt hj (Nat.succ.inj heq')]

/-- **A switch takes the first case that matches**, whatever else expressions are interpreted as. -/
theorem switchExpr_takesFirst (h : Interprets eval holds same) (hcases : HasCases config values)
    (inputs : List BuiltExpr) : TakesFirst eval same config values inputs := by
  obtain rfl := hasCases_iff.mp hcases
  exact
    { first := fun _ _ _ ↦ eval_of_first h
      otherwise := eval_of_forall_not h
      repeated := fun _ _ hij hj hsame _ ↦ eval_eq_of_repeated h hij hj hsame }

/-- A discount by status.  There are two cases for gold, and the second one has no say. -/
theorem switchExpr_takesFirst_discount :
    let config : Json := .object [("cases", .array [.string "gold",
      .object [("value", .string "silver")], .object [("value", .string "gold")]])]
    let values : List Json := [.string "gold", .string "silver", .string "gold"]
    let inputs : List BuiltExpr := [.field "status", .field "large", .field "small", .null]
    let eval : BuiltExpr → Json := Expr.valueOf fun path ↦
      if path = "status" then .string "gold" else .string path
    Interprets eval (· = .bool true) (fun x y ↦ x.compact = y.compact) ∧ HasCases config values ∧
      eval (switchExpr config inputs) = .string "large" := by
  intro config values inputs eval
  have hcases : HasCases config values :=
    .listed rfl (.cons (.plain nofun) (.cons (.member rfl) (.cons (.member rfl) .nil)))
  have h := interprets_valueOf fun path ↦ if path = "status" then .string "gold" else .string path
  exact ⟨h, hcases, (switchExpr_takesFirst h hcases inputs).first [] _ _ rfl rfl nofun⟩

end Rule

end MappingGraph
