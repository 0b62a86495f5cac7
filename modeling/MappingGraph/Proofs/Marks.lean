import MappingGraph.Proofs.Build.Constants
import MappingGraph.Proofs.Emission

/-!
# How literals are marked

A literal is marked with a type, and whoever writes out a program goes by the mark.
`Expr.Truthful` says that the marks of an expression are the types of the values, with the exception
of whole numbers that are marked as numbers, and it names those that may be.  The construction rules
allow one exception, the number given to a constant that is declared to be one
(`Graph.truthful_exprOf`).  Literals then get into the output by being copied from built nodes, mark
and all, and `Compiler.MarksTruthfully` says of each expression of a compilation where an exception in
it was copied from.
-/

set_option autoImplicit false

namespace MappingGraph

/-- The literals are marked with the types of their values; some whole numbers may be marked as
numbers instead. -/
def Expr.Truthful {ρ : Type} (whole : Int → Prop) (e : Expr ρ) : Prop :=
  ∀ value type, .literal value type ∈ e.atoms →
    type = LiteralType.of value ∨ ∃ i, whole i ∧ value = .number (.integer i) ∧ type = .number

/-- A constant that is declared to be a number is given a whole one. -/
structure Node.GivesWhole (node : Node) (i : Int) : Prop where
  kind : node.kind = .constant
  declares : Constant.Declares node.config "number"
  given : Constant.given node.config = .number (.integer i)

namespace Graph

variable {g : Graph} {registry : Registry} {node : Node} {i : Int}

theorem truthful_exprOf (g : Graph) (registry : Registry) (node : Node) :
    (g.exprOf registry node).Truthful fun i ↦
      registry.contains .constant = true ∧ node.GivesWhole i := by
  intro value type ha
  by_cases hregistered : registry.contains node.kind = true
  · cases brings_of_mem_atoms ha with
    | field _ _ ha => cases ha
    | call _ ha => cases ha
    | literal _ hmark ha =>
      obtain ⟨rfl, rfl⟩ := Atom.literal.inj ha
      cases hmark with
      | own => exact .inl rfl
      | @declared n hrule htype hgiven hvalue =>
        have hkind := Kind.rule_eq_constant_iff.mp hrule
        cases n with
        | integer i => exact .inr ⟨i, ⟨hkind ▸ hregistered, hkind, htype, hgiven⟩, hvalue, rfl⟩
        | fractional x => exact .inl (hvalue ▸ rfl)
  · rw [exprOf, Node.build, if_neg hregistered] at ha
    obtain ⟨rfl, rfl⟩ := Atom.literal.inj (List.mem_singleton.mp ha)
    exact .inl rfl

/-- The whole number that a constant is given as a number is its expression. -/
theorem exprOf_of_givesWhole (h : node.GivesWhole i)
    (hregistered : registry.contains .constant = true) :
    g.exprOf registry node = .literal (.number (.integer i)) .number := by
  have hparse := Constant.parse?_of_denotes (ρ := Placeholder) (.number h.declares (.inl h.given))
  rw [exprOf, (Node.build_of_parse? h.kind hregistered hparse _).1,
    Constant.declares_iff.mp h.declares]
  rfl

end Graph

namespace Compiler

variable (c : Compiler) (d : Document) {i : Int} {id : String}

/-- The node was built of a constant that is declared to be a number and given a whole one. -/
def BuildsWhole (id : String) (i : Int) : Prop :=
  ∃ node, (c.stages d).graph.node? id = some node ∧ id ∈ (c.stages d).output.order ∧
    c.registry.contains .constant = true ∧ node.GivesWhole i

/-- The value of the other node is copied into that of the one. -/
def Inlines (n other : String) : Prop :=
  Uses (c.stages d).output.built n other ∧ (c.stages d).sharing.varName? other = none

/-- The whole number is copied from its node to the node, step by step. -/
def InlinesWhole (id : String) (i : Int) : Prop :=
  ∃ n, Relation.ReflTransGen (c.Inlines d) id n ∧ c.BuildsWhole d n i

/-- **How the literals of a compilation are marked.** -/
structure MarksTruthfully : Prop where
  built : ∀ id e, (id, e) ∈ (c.stages d).output.built → e.Truthful (c.BuildsWhole d id)
  /-- There is a mapping for each edge into the target.  What is marked otherwise was copied from the
  node that the edge comes from, which is not shared. -/
  mappings : List.Forall₂
    (fun (edge : Edge) (m : FieldMapping) ↦ m.expression.Truthful fun i ↦ ∃ start,
      edge.source = .node start ∧ (c.stages d).sharing.varName? start = none ∧
        c.InlinesWhole d start i)
    (c.stages d).graph.targetEdges (c.compile d).output.mappings
  shared : ∀ s ∈ (c.compile d).output.shared, s.expression.Truthful (c.InlinesWhole d s.node)
  /-- Every exception gets into the output if it is used. -/
  exceptions : ∀ i, (c.compile d).output.Has (.literal (.number (.integer i)) .number) ↔
    ∃ id, c.Feeds d id ∧ c.BuildsWhole d id i

theorem truthful_built {e : BuiltExpr} (h : (id, e) ∈ (c.stages d).output.built) :
    e.Truthful (c.BuildsWhole d id) := by
  intro value type ha
  have hid : id ∈ (c.stages d).output.order := List.mem_map_of_mem h
  rw [stages_output] at h
  obtain ⟨node, hnode, rfl⟩ := Graph.exists_node?_of_mem_built h
  refine (Graph.truthful_exprOf _ _ _ value type ha).imp_right ?_
  rintro ⟨i, ⟨hregistered, hwhole⟩, h⟩
  exact ⟨i, ⟨node, hnode, hid, hregistered, hwhole⟩, h⟩

theorem truthful_value (id : String) :
    ((c.resolver d).value id).Truthful (c.InlinesWhole d id) := by
  intro value type ha
  rcases Graph.exists_of_mem_atoms_value (c.resolver_latestFirst d) ha with
    ha | ⟨n, e, hway, hmem, ha⟩
  · obtain ⟨rfl, rfl⟩ := Atom.literal.inj ha
    exact .inl rfl
  · have hinlines : (c.resolver d).Inlines = c.Inlines d := by
      funext n other
      rw [Resolver.Inlines, uses_resolver]
      rfl
    rw [hinlines] at hway
    refine (c.truthful_built d ((c.mem_latestFirst_iff d).mp hmem) value type ha).imp_right ?_
    rintro ⟨i, hwhole, h⟩
    exact ⟨i, ⟨n, hway, hwhole⟩, h⟩

theorem truthful_ofEdge (edge : Edge) : ((c.resolver d).ofEdge edge).Truthful fun i ↦ ∃ start,
    edge.source = .node start ∧ (c.stages d).sharing.varName? start = none ∧
      c.InlinesWhole d start i := by
  intro value type ha
  rw [Resolver.ofEdge] at ha
  cases hs : edge.source with
  | source =>
    rw [hs] at ha
    cases List.mem_singleton.mp ha
  | target =>
    rw [hs] at ha
    obtain ⟨rfl, rfl⟩ := Atom.literal.inj (List.mem_singleton.mp ha)
    exact .inl rfl
  | node start =>
    rw [hs] at ha
    change .literal value type ∈ ((c.resolver d).use start).atoms at ha
    cases hv : (c.resolver d).sharing.varName? start with
    | some varName =>
      rw [Resolver.use_of_varName? hv] at ha
      exact absurd ha List.not_mem_nil
    | none =>
      rw [Resolver.use_of_varName?_eq_none hv] at ha
      refine (c.truthful_value d start value type ha).imp_right ?_
      rintro ⟨i, hwhole, h⟩
      exact ⟨i, ⟨start, rfl, hv, hwhole⟩, h⟩

theorem has_whole_iff : (c.compile d).output.Has (.literal (.number (.integer i)) .number) ↔
    ∃ id, c.Feeds d id ∧ c.BuildsWhole d id i := by
  constructor
  · intro h
    cases c.origin_of_has d h with
    | field _ _ ha => cases ha
    | null ha => cases ha
    | @node id e hmem hfeeds ha =>
      refine ⟨id, hfeeds, ?_⟩
      rcases c.truthful_built d hmem _ _ ha with htype | ⟨j, hwhole, hvalue, -⟩
      · cases htype
      · cases hvalue
        exact hwhole
  · rintro ⟨id, hfeeds, node, hnode, hid, hregistered, hwhole⟩
    obtain ⟨⟨_, e⟩, hmem, rfl⟩ := List.mem_map.mp hid
    refine c.has_of_feeds d hmem hfeeds ?_
    rw [stages_output] at hmem
    obtain ⟨m, hm, rfl⟩ := Graph.exists_node?_of_mem_built hmem
    obtain rfl : m = node := Option.some.inj (hm.symm.trans hnode)
    rw [Graph.exprOf_of_givesWhole hwhole hregistered]
    exact List.mem_singleton_self _

/-- **The marks of literals are truthful**, for every document, registry and choice of options. -/
theorem compile_marksTruthfully : c.MarksTruthfully d where
  built _ _ := c.truthful_built d
  mappings := by
    rw [mappings_compile, Graph.mappingsBy, List.forall₂_map_right_iff, List.forall₂_same]
    exact fun edge _ ↦ c.truthful_ofEdge d edge
  shared s hs := by
    obtain ⟨n, _, rfl⟩ := List.mem_map.mp ((c.mem_shared_iff d).mp hs).1
    exact c.truthful_value d n.node
  exceptions _ := c.has_whole_iff d

end Compiler

end MappingGraph
