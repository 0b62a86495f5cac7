import MappingGraph.Proofs.Build.Atoms

/-!
# The calls of an expression

`Expr.calls` lists the functions that an expression calls, each with the settings that are passed
along; they are the atoms of one kind (`Expr.mem_calls_iff`).  A node calls at most one function of
its own (`Node.calls_build`), so that a call tells which node it came from:
`Node.kind_of_callee?_now` and `Node.kind_of_callee?_some` do so for the two kinds that are impure in
the standard registry.
-/

set_option autoImplicit false

namespace MappingGraph

namespace Expr

variable {ρ : Type}

/-- The functions that are called, each with its settings, from left to right. -/
def calls : Expr ρ → List (String × Option Json)
  | literal _ _ | field _ | reference _ => []
  | binary _ left right => left.calls ++ right.calls
  | unary _ operand => operand.calls
  | call function args config => (function, config) :: callsOfList args
  | conditional condition yes no => condition.calls ++ yes.calls ++ no.calls
  | array elements => callsOfList elements
  | object entries => callsOfEntries entries
where
  callsOfList : List (Expr ρ) → List (String × Option Json)
    | [] => []
    | x :: xs => x.calls ++ callsOfList xs
  callsOfEntries : List (String × Expr ρ) → List (String × Option Json)
    | [] => []
    | (_, x) :: es => x.calls ++ callsOfEntries es

theorem callsOfList_eq_flatMap (xs : List (Expr ρ)) : calls.callsOfList xs = xs.flatMap calls := by
  induction xs with
  | nil => rfl
  | cons x xs ih => rw [calls.callsOfList, ih, List.flatMap_cons]

theorem callsOfEntries_eq_flatMap (es : List (String × Expr ρ)) :
    calls.callsOfEntries es = es.flatMap fun p ↦ p.2.calls := by
  induction es with
  | nil => rfl
  | cons p es ih => rw [calls.callsOfEntries, ih, List.flatMap_cons]

variable {c : String × Option Json}

/-- The calls are the atoms of one kind. -/
theorem mem_calls_iff {e : Expr ρ} : c ∈ e.calls ↔ Atom.call c.1 c.2 ∈ e.atoms := by
  induction e using ind with
  | literal | field | reference => simp [calls, atoms]
  | binary op l r ihl ihr => simp only [calls, atoms, List.mem_append, ihl, ihr]
  | unary op x ih => rw [calls, atoms, ih]
  | conditional x y n ihx ihy ihn => simp only [calls, atoms, List.mem_append, ihx, ihy, ihn]
  | call fn args config ih =>
    simp only [calls, atoms, callsOfList_eq_flatMap, atomsOfList_eq_flatMap, List.mem_cons,
      List.mem_flatMap, Atom.call.injEq, Prod.ext_iff]
    exact or_congr_right (exists_congr fun x ↦ and_congr_right fun hx ↦ ih x hx)
  | array xs ih =>
    simp only [calls, atoms, callsOfList_eq_flatMap, atomsOfList_eq_flatMap, List.mem_flatMap]
    exact exists_congr fun x ↦ and_congr_right fun hx ↦ ih x hx
  | object es ih =>
    simp only [calls, atoms, callsOfEntries_eq_flatMap, atomsOfEntries_eq_flatMap, List.mem_flatMap]
    exact exists_congr fun p ↦ and_congr_right fun hp ↦ ih p hp

end Expr

/-! ## The calls of built nodes -/

theorem Rule.Made.calls_eq_nil {rule : Rule} {config : Json} {inputs : List BuiltExpr}
    {e : BuiltExpr} (h : Made rule config inputs e) (hinputs : ∀ x ∈ inputs, x.calls = []) :
    e.calls = [] := by
  refine List.eq_nil_iff_forall_not_mem.mpr fun c hc ↦ ?_
  rcases h.mem_atoms (Expr.mem_calls_iff.mp hc) with ⟨x, hx, ha⟩ | ⟨_, _, _, _, ha⟩
  · exact List.not_mem_nil (hinputs x hx ▸ Expr.mem_calls_iff.mpr ha)
  · cases ha

namespace Node

variable {registry : Registry} {node : Node} {inputs : List BuiltExpr}

/-- **A node calls one function at most**, if its inputs call none. -/
theorem calls_build (hinputs : ∀ x ∈ inputs, x.calls = []) :
    (node.build registry inputs).calls = (node.callee? registry).toList := by
  cases hc : node.callee? registry with
  | none => exact (made_of_callee?_eq_none hc).calls_eq_nil hinputs
  | some callee =>
    obtain ⟨args, hbuild, hargs⟩ := @build_of_callee? registry node inputs callee hc
    rw [hbuild, Expr.calls, Expr.callsOfList_eq_flatMap,
      List.flatMap_eq_nil_iff.mpr fun x hx ↦ (hargs x hx).calls_eq_nil hinputs]
    rfl

/-- Only a node that reads the clock calls `now` without settings. -/
theorem kind_of_callee?_now (h : node.callee? registry = some ("now", none)) :
    node.kind = .now := by
  rw [callee?] at h
  split at h
  · cases hk : node.kind <;> simp [Kind.rule, Rule.callee?, Kind.name, hk] at h ⊢
  · cases h

/-- Only a node with a function of its own passes its settings along. -/
theorem kind_of_callee?_some {function : String} {config : Json}
    (h : node.callee? registry = some (function, some config)) : node.kind = .customFunction := by
  rw [callee?] at h
  split at h
  · cases hk : node.kind <;> simp [Kind.rule, Rule.callee?, hk] at h ⊢
  · cases h

end Node

theorem Graph.calls_exprOf (g : Graph) (registry : Registry) (node : Node) :
    (g.exprOf registry node).calls = (node.callee? registry).toList := by
  refine Node.calls_build fun x hx ↦ ?_
  obtain ⟨e, _, rfl⟩ := List.mem_map.mp hx
  rw [Inputs.ofEdge]
  cases e.source <;> rfl

end MappingGraph
