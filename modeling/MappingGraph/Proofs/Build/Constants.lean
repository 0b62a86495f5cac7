import MappingGraph.Proofs.Build.Reasons
import MappingGraph.Proofs.Upstream

/-!
# Constants of a graph

A constant node is the value that its settings describe, or else the text of what they give, and then
this is told once.  `Constant.Keeps` has this together with what is read of the settings alone.
-/

set_option autoImplicit false

namespace MappingGraph

namespace Node

variable {registry : Registry} {node : Node} {e : BuiltExpr} {fault : Constant.Fault}

theorem build_of_parse? (hkind : node.kind = .constant)
    (hregistered : registry.contains .constant = true)
    (h : Constant.parse? node.config = .ok e) (inputs : List BuiltExpr) :
    node.build registry inputs = e ∧ node.buildDiagnostics registry = [] := by
  rw [build, buildDiagnostics, hkind, if_pos hregistered, if_pos hregistered]
  show Rule.constantExpr node.config = e ∧ Rule.constant.diagnostics node = []
  rw [Rule.constantExpr, Rule.diagnostics, h]
  exact ⟨rfl, rfl⟩

theorem build_of_fault (hkind : node.kind = .constant)
    (hregistered : registry.contains .constant = true)
    (h : (Constant.parse? node.config : Except _ BuiltExpr) = .error fault)
    (inputs : List BuiltExpr) :
    node.build registry inputs = Constant.fallback node.config ∧
      node.buildDiagnostics registry =
        [.malformedConstant node.id fault.message node.config.compact] := by
  rw [build, buildDiagnostics, hkind, if_pos hregistered, if_pos hregistered]
  show Rule.constantExpr node.config = _ ∧ Rule.constant.diagnostics node = _
  rw [Rule.constantExpr, Rule.diagnostics, h]
  exact ⟨rfl, rfl⟩

end Node

namespace Graph

variable {g : Graph} {registry : Registry} {node : Node}

/-- The expression of a node of the graph, and what is told of it. -/
theorem built_of_mem_schedule (hg : g.ids.Nodup) (registry : Registry)
    (hnode : g.node? node.id = some node) (hid : node.id ∈ g.schedule) :
    (g.build registry).expr? node.id = some (g.exprOf registry node) ∧
      (g.buildDiagnostics registry).filter (·.subject = node.id) =
        node.buildDiagnostics registry := by
  rw [expr?_build, if_pos hid, hnode, Option.map_some]
  exact ⟨rfl, filter_buildDiagnostics_of_mem_schedule hg hid hnode⟩

/-- A constant node of the graph is its value, of which nothing is told, or its text, of which is told
once. -/
structure KeepsConstant (g : Graph) (registry : Registry) (node : Node) : Prop where
  value : ∀ v, Constant.Denotes node.config v →
    (∃ e ∈ (g.build registry).expr? node.id, e.value? = some v) ∧
      (g.buildDiagnostics registry).filter (·.subject = node.id) = []
  text : (∀ v, ¬ Constant.Denotes node.config v) →
    (g.build registry).expr? node.id =
        some (.string (Constant.rawText (Constant.given node.config))) ∧
      ∃ fault, (Constant.parse? node.config : Except _ BuiltExpr) = .error fault ∧
        (g.buildDiagnostics registry).filter (·.subject = node.id) =
          [.malformedConstant node.id fault.message node.config.compact]

theorem keepsConstant (hg : g.ids.Nodup) (hnode : g.node? node.id = some node)
    (hid : node.id ∈ g.schedule) (hkind : node.kind = .constant)
    (hregistered : registry.contains .constant = true) : g.KeepsConstant registry node := by
  obtain ⟨hexpr, htold⟩ := built_of_mem_schedule hg registry hnode hid
  rw [exprOf] at hexpr
  constructor
  · intro v hv
    obtain ⟨hbuild, hnothing⟩ :=
      Node.build_of_parse? hkind hregistered (Constant.parse?_of_denotes hv) _
    rw [hexpr, htold, hbuild, hnothing]
    exact ⟨⟨_, rfl, Constant.value?_written _ v⟩, rfl⟩
  · intro hnone
    cases hparse : (Constant.parse? node.config : Except _ BuiltExpr) with
    | ok e =>
      obtain ⟨v, hv, -⟩ := Constant.exists_denotes_of_parse? hparse
      exact absurd hv (hnone v)
    | error fault =>
      obtain ⟨hbuild, hone⟩ := Node.build_of_fault hkind hregistered hparse _
      rw [hexpr, htold, hbuild, hone]
      exact ⟨rfl, fault, rfl, rfl⟩

end Graph

namespace Constant

/-- What becomes of a constant with the settings. -/
structure Keeps (config : Json) : Prop where
  /-- What is read is made of literals, and these write down what the settings describe. -/
  sound : ∀ e : BuiltExpr, parse? config = .ok e →
    e.OfLiterals ∧ ∃ v, e.value? = some v ∧ Denotes config v
  /-- Whatever the settings describe is read. -/
  complete : ∀ v, Denotes config v → ∃ e : BuiltExpr, parse? config = .ok e ∧ e.value? = some v
  unique : ∀ v w, Denotes config v → Denotes config w → v = w
  /-- A node with the settings that gets built is kept so. -/
  node : ∀ (d : Document) (registry : Registry), ∀ node ∈ (Graph.ofDocument d).nodes,
    node.config = config → node.kind = .constant → registry.contains .constant = true →
      node.id ∈ (Graph.ofDocument d).schedule →
        (Graph.ofDocument d).KeepsConstant registry node

/-- **A constant keeps its value or else its text**, whatever its settings are. -/
theorem keeps (config : Json) : Keeps config := by
  constructor
  · intro e h
    obtain ⟨v, hv, rfl⟩ := exists_denotes_of_parse? h
    have hvalue := value?_written (ρ := Placeholder) (declaredType config) v
    exact ⟨Expr.ofLiterals_of_value? hvalue, v, hvalue, hv⟩
  · exact fun v hv ↦ ⟨_, parse?_of_denotes hv, value?_written _ v⟩
  · exact fun _ _ ↦ Denotes.unique
  · intro d registry node hnode _ hkind hregistered hid
    have hg := Graph.nodup_ids_ofDocument d
    exact Graph.keepsConstant hg (Graph.node?_of_mem hg hnode) hid hkind hregistered

end Constant

end MappingGraph
