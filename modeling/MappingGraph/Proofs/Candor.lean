import MappingGraph.Proofs.Operation.Registry
import MappingGraph.Proofs.Unbuilt

/-!
# What it means that nothing is told

Whoever is told nothing about a compilation takes the output for all that is in the document.
`Compiler.Faithful` says what this amounts to: no edge and no node was left behind, every overlay was
applied, and every node has the expression that it describes.

Where a stage drops or replaces something it mostly tells, so that the absence of diagnostics means a
good part of this (`Compiler.silent_iff`).  There are two losses of which no stage tells: of several
nodes with one id only the first gets into the graph, and an overlay is passed over where its handle
names nothing.  The last theorem has their absence as the two conditions that are missing, and the
document behind it suffers both in silence.
-/

set_option autoImplicit false

namespace MappingGraph

/-! ## What can be lost -/

namespace Overlay

/-- There is a place for the overlay in the schema, and the schema is changed there. -/
def Applies (o : Overlay) (schema : Json) : Prop :=
  ∃ place ∈ o.place? schema, (schema.modify? place.pointer o.patch.mergePatch).isSome

/-- Each overlay applies to what those before it have made of the schema. -/
def AllApply : Json → List Overlay → Prop
  | _, [] => True
  | schema, o :: overlays => o.Applies schema ∧ AllApply (apply schema o) overlays

end Overlay

/-- The overlays of a side apply, if there is a schema that they are meant for. -/
def Document.OverlaysApply (d : Document) (side : Side) : Prop :=
  (d.schema side).isNull = false →
    Overlay.AllApply (d.schema side) (Overlay.onSide side d.overlays)

/-- The node has the expression that it describes. -/
structure Node.Sound (registry : Registry) (n : Node) : Prop where
  registered : registry.contains n.kind = true
  /-- There is a rule for its kind. -/
  known : n.kind.rule ≠ .missing
  /-- A constant is of its declared type. -/
  constant : n.kind = .constant → ∃ e : BuiltExpr, Constant.parse? n.config = .ok e
  /-- A template is well formed, or empty. -/
  template : n.kind = .template → Rule.templateText n.config ≠ "" →
    Template.fault? (Rule.templateText n.config) = none

/-- All that is in the document got into the output as it was meant. -/
structure Compiler.Faithful (c : Compiler) (d : Document) : Prop where
  edges : (c.stages d).cleaned.edges = d.edges
  nodes : (c.stages d).graph.nodes = d.nodes
  overlays : ∀ side, d.OverlaysApply side
  built : ∀ n ∈ d.nodes, n.id ∈ (c.stages d).output.order
  sound : ∀ n ∈ d.nodes, n.Sound c.registry

/-! ## Stage by stage -/

namespace Sanitation

variable {d : Document} {s : Schemas}

theorem edges_clean_eq_iff : (clean d s).edges = d.edges ↔ ∀ e ∈ d.edges, Stands d s e :=
  (filters d s).isClean.symm.trans isClean_iff

theorem diagnostics_eq_nil_iff : diagnostics d s = [] ↔ ∀ e ∈ d.edges, Stands d s e := by
  simp only [diagnostics, List.filterMap_eq_nil_iff, fault?_eq_none_iff]

end Sanitation

theorem Kind.rule_eq_template_iff {kind : Kind} : kind.rule = .template ↔ kind = .template := by
  cases kind <;> simp [rule]

theorem Rule.diagnostics_eq_nil_iff {rule : Rule} {n : Node} : rule.diagnostics n = [] ↔
    rule ≠ .missing ∧ (rule = .constant → ∃ e : BuiltExpr, Constant.parse? n.config = .ok e) ∧
      (rule = .template → templateText n.config ≠ "" →
        Template.fault? (templateText n.config) = none) := by
  cases rule with
  | template =>
    rw [diagnostics]
    split
    · next hempty => simp [String.isEmpty_iff.mp hempty]
    · next hempty =>
      have htext : templateText n.config ≠ "" := fun h ↦ hempty (String.isEmpty_iff.mpr h)
      cases Template.fault? (templateText n.config) <;> simp [htext]
  | constant =>
    rw [diagnostics]
    cases (Constant.parse? n.config : Except Constant.Fault BuiltExpr) <;> simp
  | missing => simp [diagnostics]
  | _ => simp [diagnostics]

/-- **Nothing is told about a node** if it has the expression that it describes. -/
theorem Node.buildDiagnostics_eq_nil_iff {registry : Registry} {n : Node} :
    n.buildDiagnostics registry = [] ↔ n.Sound registry := by
  have hsound : n.Sound registry ↔
      registry.contains n.kind = true ∧ n.kind.rule.diagnostics n = [] := by
    rw [Rule.diagnostics_eq_nil_iff, Kind.rule_eq_constant_iff, Kind.rule_eq_template_iff]
    exact ⟨fun h ↦ ⟨h.registered, h.known, h.constant, h.template⟩,
      fun h ↦ ⟨h.1, h.2.1, h.2.2.1, h.2.2.2⟩⟩
  rw [hsound, buildDiagnostics]
  split <;> simp [*]

namespace Graph

theorem firstById_eq_self_iff {ns : List Node} : firstById ns = ns ↔ (ns.map (·.id)).Nodup := by
  constructor
  · intro h
    rw [← h]
    exact nodup_ids_ofDocument { nodes := ns }
  · intro h
    induction ns with
    | nil => rfl
    | cons n ns ih =>
      obtain ⟨hn, hns⟩ := List.nodup_cons.mp h
      rw [firstById, ih hns, List.filter_eq_self.mpr]
      intro m hm
      exact decide_eq_true fun heq ↦ hn (List.mem_map.mpr ⟨m, hm, heq⟩)

variable {g : Graph} {registry : Registry}

/-- Nothing is told about building if all nodes are built and have the expressions they describe. -/
theorem buildDiagnostics_eq_nil_iff (hg : g.ids.Nodup) : g.buildDiagnostics registry = [] ↔
    (∀ id ∈ g.ids, id ∈ g.schedule) ∧ ∀ n ∈ g.nodes, n.Sound registry := by
  rw [buildDiagnostics, List.append_eq_nil_iff, List.map_eq_nil_iff, List.flatMap_eq_nil_iff,
    unbuilt, List.map_eq_nil_iff, List.filter_eq_nil_iff, and_comm]
  simp only [decide_eq_true_iff, not_not, Node.buildDiagnostics_eq_nil_iff]
  refine and_congr_right fun hall ↦ ⟨fun h n hn ↦ h n ?_, fun h n hn ↦ h n ?_⟩
  · exact List.mem_filterMap.mpr ⟨n.id, hall n.id (List.mem_map_of_mem hn), node?_of_mem hg hn⟩
  · obtain ⟨id, _, hid⟩ := List.mem_filterMap.mp hn
    exact List.mem_of_find?_eq_some hid

end Graph

namespace Compiler

variable (c : Compiler) (d : Document)

theorem mem_order_iff {id : String} :
    id ∈ (c.stages d).output.order ↔ id ∈ (c.stages d).graph.schedule := by
  rw [stages_output, Graph.order_build]

/-- **When nothing is told.**  The last stage tells only of nodes that the one before told of. -/
theorem silent_iff : (c.compile d).diagnostics.items = [] ↔
    (∀ e ∈ d.edges, Sanitation.Stands d (Sanitation.schemasOf d none none) e) ∧
      (∀ id ∈ (c.stages d).graph.ids, id ∈ (c.stages d).output.order) ∧
        ∀ n ∈ (c.stages d).graph.nodes, n.Sound c.registry := by
  have hg : (c.stages d).graph.ids.Nodup := Graph.nodup_ids_ofDocument _
  rw [diagnostics_compile, List.append_eq_nil_iff, List.append_eq_nil_iff, List.map_eq_nil_iff,
    stages_sanitationDiagnostics, stages_buildDiagnostics, Sanitation.diagnostics_eq_nil_iff,
    Graph.buildDiagnostics_eq_nil_iff hg]
  simp only [mem_order_iff]
  refine ⟨fun h ↦ h.1, fun h ↦ ⟨h, ?_⟩⟩
  -- With all nodes built, no edge into the target can start at an unbuilt one.
  have hall : (c.compile d).unbuiltIds = [] := by
    rw [unbuiltIds_compile, List.filter_eq_nil_iff]
    exact fun id hid hmissing ↦ of_decide_eq_true hmissing (h.2.1 id hid)
  rw [missingBy_eq_unbuiltStarts, unbuiltStarts, hall]
  simp

/-- **The output is faithful if nothing is told**, no id is given to two nodes, and all overlays
apply; and only then. -/
theorem faithful_iff : c.Faithful d ↔ (c.compile d).diagnostics.items = [] ∧
    (d.nodes.map (·.id)).Nodup ∧ ∀ side, d.OverlaysApply side := by
  have hnodes : (c.stages d).graph.nodes = d.nodes ↔ (d.nodes.map (·.id)).Nodup :=
    Graph.firstById_eq_self_iff
  have hedges : (c.stages d).cleaned.edges = d.edges ↔
      ∀ e ∈ d.edges, Sanitation.Stands d (Sanitation.schemasOf d none none) e :=
    Sanitation.edges_clean_eq_iff
  rw [silent_iff, ← hnodes, ← hedges]
  constructor
  · intro h
    rw [Graph.ids, h.nodes]
    exact ⟨⟨h.edges, List.forall_mem_map.mpr h.built, h.sound⟩, rfl, h.overlays⟩
  · rintro ⟨⟨hedges, hbuilt, hsound⟩, hnodes, hoverlays⟩
    rw [Graph.ids, hnodes] at hbuilt
    exact ⟨hedges, hnodes, hoverlays, List.forall_mem_map.mp hbuilt, hnodes ▸ hsound⟩

/-- Two nodes have one id, and an overlay is meant for a field that is not there. -/
def silentLosses : Document where
  nodes := [⟨"rate", .constant, none, .object [("value", .string "1")]⟩,
    ⟨"rate", .constant, none, .object [("value", .string "2")]⟩]
  edges := [⟨"e", .node "rate", none, .target, some "$.rate"⟩]
  sourceSchema := .object []
  overlays := [⟨.source, "$.missing", .object []⟩]

/-- The second node and the overlay are lost, and nothing is told. -/
theorem not_faithful_silentLosses :
    (({} : Compiler).compile silentLosses).diagnostics.items = [] ∧
      (({} : Compiler).stages silentLosses).graph.nodes ≠ silentLosses.nodes ∧
      ¬ silentLosses.OverlaysApply .source ∧ ¬ ({} : Compiler).Faithful silentLosses := by
  have hnodes : (({} : Compiler).stages silentLosses).graph.nodes ≠ silentLosses.nodes :=
    fun h ↦ absurd (congrArg List.length h) (by decide)
  have hplace : Overlay.place? ⟨.source, "$.missing", .object []⟩ (.object []) = none := rfl
  have hoverlay : ¬ silentLosses.OverlaysApply .source := by
    intro h
    obtain ⟨place, hmem, _⟩ := (h rfl).1
    cases hplace.symm.trans hmem
  refine ⟨(silent_iff _ _).mpr ⟨by decide, by decide, ?_⟩, hnodes, hoverlay,
    fun h ↦ hoverlay (h.overlays .source)⟩
  refine List.forall_mem_singleton.mpr ⟨?_, nofun, fun _ ↦ ⟨_, rfl⟩, nofun⟩
  rw [Registry.contains, Registry.find?_standard rfl]
  rfl

end Compiler

end MappingGraph
