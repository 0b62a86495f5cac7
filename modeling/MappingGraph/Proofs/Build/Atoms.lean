import MappingGraph.Proofs.Build.Refs
import MappingGraph.Proofs.Expr.Atoms

/-!
# What a node brings in

The atoms of a built expression are few in kind: the fields that edges from the source bring, literals
that the settings of the node supply, and the one function that the node calls.  `Node.Brings` lists
these for given inputs and `Graph.Brings` for the edges of a graph, and the two theorems say that
nothing else is among the atoms.  What is to be proved of all literals, fields or calls of an output
is proved by these three cases.
-/

set_option autoImplicit false

namespace MappingGraph

variable {registry : Registry} {node : Node} {inputs : List BuiltExpr} {a : Atom}

theorem Rule.Made.mem_atoms {rule : Rule} {config : Json} {e : BuiltExpr}
    (h : Made rule config inputs e) (ha : a ∈ e.atoms) : (∃ x ∈ inputs, a ∈ x.atoms) ∨
      ∃ value type, Supplied config value ∧ Marks rule config value type ∧
        a = .literal value type := by
  induction h with
  | input h => exact .inl ⟨_, h, ha⟩
  | literal h hmark => exact .inr ⟨_, _, h, hmark, List.mem_singleton.mp ha⟩
  | literals h =>
    rw [Constant.arrayOf, Expr.atoms, Expr.atomsOfList_eq_flatMap, List.flatMap_map] at ha
    obtain ⟨v, hv, ha⟩ := List.mem_flatMap.mp ha
    exact .inr ⟨v, _, h v hv, .own, List.mem_singleton.mp ha⟩
  | members h =>
    rw [Constant.objectOf, Expr.atoms, Expr.atomsOfEntries_eq_flatMap, List.flatMap_map] at ha
    obtain ⟨m, hm, ha⟩ := List.mem_flatMap.mp ha
    exact .inr ⟨m.2, _, h m hm, .own, List.mem_singleton.mp ha⟩
  | binary op _ _ ihx ihy => exact (List.mem_append.mp ha).elim ihx ihy
  | unary op _ ih => exact ih ha
  | conditional _ _ _ ihx ihy ihz =>
    rw [Expr.atoms, List.mem_append, List.mem_append] at ha
    exact ha.elim (fun h ↦ h.elim ihx ihy) ihz

/-- Where an atom of the expression of a node comes from, given the inputs of the node. -/
inductive Node.Brings (registry : Registry) (node : Node) (inputs : List BuiltExpr) (a : Atom) : Prop
  | input {x : BuiltExpr} (hx : x ∈ inputs) (ha : a ∈ x.atoms)
  | literal {value : Json} {type : LiteralType} (h : Rule.Supplied node.config value)
    (hmark : Rule.Marks node.kind.rule node.config value type) (ha : a = .literal value type)
  | call {callee : String × Option Json} (h : node.callee? registry = some callee)
    (ha : a = .call callee.1 callee.2)

theorem Node.brings_of_made {e : BuiltExpr}
    (h : Rule.Made node.kind.rule node.config inputs e) (ha : a ∈ e.atoms) :
    node.Brings registry inputs a := by
  rcases h.mem_atoms ha with ⟨x, hx, ha⟩ | ⟨value, type, hvalue, hmark, ha⟩
  · exact .input hx ha
  · exact .literal hvalue hmark ha

/-- **The atoms of a node** are those of its inputs, its literals and its call. -/
theorem Node.brings_of_mem_atoms (ha : a ∈ (node.build registry inputs).atoms) :
    node.Brings registry inputs a := by
  cases hc : node.callee? registry with
  | none => exact brings_of_made (made_of_callee?_eq_none hc) ha
  | some callee =>
    obtain ⟨args, hbuild, hargs⟩ := @build_of_callee? registry node inputs callee hc
    rw [hbuild, Expr.atoms, Expr.atomsOfList_eq_flatMap, List.mem_cons, List.mem_flatMap] at ha
    rcases ha with ha | ⟨x, hx, ha⟩
    · exact .call hc ha
    · exact brings_of_made (hargs x hx) ha

/-- Where an atom of the expression of a node of the graph comes from. -/
inductive Graph.Brings (g : Graph) (registry : Registry) (node : Node) (a : Atom) : Prop
  /-- An edge leads from the source to the node. -/
  | field {e : Edge} (he : e ∈ g.incoming node.id) (hs : e.source = .source)
    (ha : a = .field (Handle.cleanPath e.sourcePath))
  | literal {value : Json} {type : LiteralType} (h : Rule.Supplied node.config value)
    (hmark : Rule.Marks node.kind.rule node.config value type) (ha : a = .literal value type)
  | call {callee : String × Option Json} (h : node.callee? registry = some callee)
    (ha : a = .call callee.1 callee.2)

/-- **The atoms of a node of the graph.**  An edge from another node brings in a placeholder, which
is no atom, and one from the target schema is null. -/
theorem Graph.brings_of_mem_atoms {g : Graph} (ha : a ∈ (g.exprOf registry node).atoms) :
    g.Brings registry node a := by
  cases Node.brings_of_mem_atoms ha with
  | literal h hmark ha => exact .literal h hmark ha
  | call h ha => exact .call h ha
  | input hx ha =>
    obtain ⟨e, he, rfl⟩ := List.mem_map.mp hx
    have hin := Inputs.mem_ordered_iff.mp he
    rw [Inputs.ofEdge] at ha
    cases hs : e.source with
    | source => rw [hs] at ha; exact .field hin hs (List.mem_singleton.mp ha)
    | target => rw [hs] at ha; exact .literal .null .own (List.mem_singleton.mp ha)
    | node id => rw [hs] at ha; exact absurd ha List.not_mem_nil

end MappingGraph
