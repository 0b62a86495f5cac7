import MappingGraph.Compiler
import MappingGraph.Proofs.Graph.Reach
import MappingGraph.Proofs.Operation.Registry
import MappingGraph.Proofs.Resolution
import MappingGraph.Proofs.Sharing.Names

/-!
# What is put together

Assembling runs the resolver over the edges into the target and over the shared nodes.  With
`Resolver.use` and `Resolver.value` in hand its outcome can be written down without a state:
`Graph.mappingsBy` and `Graph.sharedBy`, of which those are kept that are live.  The reports depend
on the built nodes only, not on what is shared.

The last section says what this makes of a whole compilation: `Compiler.mappings_compile`,
`Compiler.shared_compile` and `Compiler.diagnostics_compile`.  All that is proved about compiled
mappings starts from these three.
-/

set_option autoImplicit false

namespace MappingGraph

namespace Resolver

variable {r : Resolver} {missing : List String}

/-- What an edge brings into its field of the target. -/
def ofEdge (r : Resolver) (e : Edge) : Expression :=
  match e.source with
  | .source => .field (Handle.cleanPath e.sourcePath)
  | .node id => r.use id
  | .target => .null

/-- The unbuilt nodes met after an edge. -/
def noteEdge (r : Resolver) (missing : List String) (e : Edge) : List String :=
  match e.source with
  | .node id => r.noteUse missing id
  | .source | .target => missing

theorem fieldMapping_runs (hl : LatestFirst r.latestFirst) (e : Edge) :
    Runs (r.Knows missing) (Graph.fieldMapping r e) ⟨Handle.cleanPath e.targetPath, r.ofEdge e⟩
      (r.Knows (r.noteEdge missing e)) := by
  have hexpr : Runs (r.Knows missing) (Graph.mappingExpr r e) (r.ofEdge e)
      (r.Knows (r.noteEdge missing e)) := by
    rw [Graph.mappingExpr, ofEdge, noteEdge]
    cases e.source with
    | source | target => exact Runs.pure _ _
    | node id => exact resolve_runs hl id missing
  exact hexpr.bind (Runs.pure _ _)

end Resolver

namespace Graph

variable {g : Graph} {registry : Registry} {r : Resolver}

/-- The mappings of a graph. -/
def mappingsBy (g : Graph) (r : Resolver) : List FieldMapping :=
  g.targetEdges.map fun e ↦ ⟨Handle.cleanPath e.targetPath, r.ofEdge e⟩

/-- The value of a shared node as it is written into the output. -/
def sharedOf (g : Graph) (registry : Registry) (r : Resolver) (s : SharedNode) :
    SharedExpression :=
  ⟨s.node, s.varName, r.value s.node, g.hintName? registry s.node, s.refCount⟩

/-- The shared values of a graph, live or not. -/
def sharedBy (g : Graph) (registry : Registry) (r : Resolver) : List SharedExpression :=
  r.sharing.nodes.map (g.sharedOf registry r)

/-- The shared values that are kept. -/
def liveSharedBy (g : Graph) (registry : Registry) (r : Resolver) : List SharedExpression :=
  (g.sharedBy registry r).filter (·.node ∈ live (g.mappingsBy r) (g.sharedBy registry r))

/-- The unbuilt nodes that edges into the target start at, each once. -/
def missingBy (g : Graph) (r : Resolver) : List String := g.targetEdges.foldl r.noteEdge []

theorem sharedExpression_runs {missing : List String} (hl : LatestFirst r.latestFirst)
    {s : SharedNode} (hs : s.node ∈ r.latestFirst.map Prod.fst) :
    Runs (r.Knows missing) (g.sharedExpression registry r s) (g.sharedOf registry r s)
      (r.Knows missing) := by
  have hrun := Resolver.inline_runs hl s.node missing
  rw [Resolver.noteInline_of_mem hs] at hrun
  exact hrun.bind (Runs.pure _ _)

/-- **Assembling without a state.** -/
theorem assemble_runs {out : BuildOutput} {sharing : Sharing} (hl : LatestFirst out.built.reverse)
    (hs : ∀ s ∈ sharing.nodes, s.node ∈ out.order) :
    Runs ((Resolver.of out sharing).Knows []) (g.assemble out sharing registry)
      ⟨g.mappingsBy (.of out sharing), g.liveSharedBy registry (.of out sharing)⟩
      ((Resolver.of out sharing).Knows (g.missingBy (.of out sharing))) := by
  have hbuilt : ∀ s ∈ sharing.nodes, s.node ∈ (Resolver.of out sharing).latestFirst.map Prod.fst :=
    fun s h ↦ by
      rw [Resolver.of, List.map_reverse, List.mem_reverse]
      exact hs s h
  refine (Runs.mapM g.targetEdges (fun e _ _ ↦ Resolver.fieldMapping_runs hl e) []).bind ?_
  refine Runs.bind ?_ (Runs.pure _ _)
  exact Runs.mapM_keeps sharing.nodes fun s h ↦ sharedExpression_runs hl (hbuilt s h)

/-! ## Shared nodes -/

/-- Shared nodes are built nodes, in the build order. -/
theorem sharing_sublist (g : Graph) (out : BuildOutput) (registry : Registry) (options : Options) :
    ((g.sharing out registry options).nodes.map SharedNode.node).Sublist out.order := by
  rw [sharing]
  split
  · rw [map_node_nameShared]
    exact List.filter_sublist.map _
  · exact List.nil_sublist _

/-- What makes a value worth sharing, one by one. -/
theorem isShareable_iff {minCost : Nat} {excluded : List String} {id : String} {e : BuiltExpr} :
    g.isShareable registry minCost excluded id e = true ↔
      2 ≤ g.refCount id ∧
        (∃ node info, g.node? id = some node ∧ registry.find? node.kind = some info ∧
          info.isPure = true) ∧
        id ∉ excluded ∧ minCost ≤ e.cost := by
  simp only [isShareable, Bool.and_eq_true, decide_eq_true_eq, Option.any_eq_true,
    Registry.isPure_iff, and_assoc, exists_and_left]

/-- The shared nodes are the built ones that are worth it. -/
theorem mem_sharing_iff {out : BuildOutput} {options : Options} {id : String} :
    id ∈ (g.sharing out registry options).nodes.map SharedNode.node ↔
      options.hoistShared = true ∧ ∃ e, (id, e) ∈ out.built ∧
        g.isShareable registry options.minHoistCost g.arrayScoped id e = true := by
  rw [sharing]
  split
  · next h => simp [h, map_node_nameShared]
  · next h => simp [h]

/-- A shared node has the count of the edges that use it. -/
theorem refCount_of_mem_sharing {out : BuildOutput} {options : Options} {s : SharedNode}
    (hs : s ∈ (g.sharing out registry options).nodes) : s.refCount = g.refCount s.node := by
  rw [sharing] at hs
  split at hs
  · have hcount := List.mem_map_of_mem (f := fun s ↦ (s.node, s.refCount)) hs
    rw [map_nameShared] at hcount
    obtain ⟨id, _, heq⟩ := List.mem_map.mp hcount
    obtain ⟨rfl, hrefs⟩ := Prod.mk.inj heq
    exact hrefs.symm
  · exact absurd hs List.not_mem_nil

theorem sharing_varName_nodup (g : Graph) (out : BuildOutput) (registry : Registry)
    (options : Options) : ((g.sharing out registry options).nodes.map SharedNode.varName).Nodup := by
  rw [sharing]
  split
  · exact nameShared_nodup _ _ _
  · exact List.nodup_nil

end Graph

/-! ## A whole compilation -/

namespace Compiler

variable (c : Compiler) (d : Document)

/-! The stages one by one.  Unfolding `Compiler.stages` would carry the whole run of the resolver
along, so the others go by these equations. -/

theorem stages_schemas : (c.stages d).schemas = Sanitation.schemasOf d none none := rfl

theorem stages_graph : (c.stages d).graph =
    Graph.ofDocument (Sanitation.clean d (Sanitation.schemasOf d none none)) := rfl

theorem stages_output : (c.stages d).output = (c.stages d).graph.build c.registry := rfl

theorem stages_sharing : (c.stages d).sharing =
    (c.stages d).graph.sharing (c.stages d).output c.registry c.options := rfl

theorem stages_sanitationDiagnostics : (c.stages d).sanitationDiagnostics =
    Sanitation.diagnostics d (Sanitation.schemasOf d none none) := rfl

theorem stages_buildDiagnostics : (c.stages d).buildDiagnostics =
    (c.stages d).graph.buildDiagnostics c.registry := rfl

/-- The resolver of a compilation. -/
def resolver : Resolver := .of (c.stages d).output (c.stages d).sharing

theorem resolver_latestFirst : LatestFirst (c.resolver d).latestFirst :=
  Graph.build_latestFirst (Graph.nodup_ids_ofDocument _) _

theorem sharing_sublist_order :
    ((c.resolver d).sharing.nodes.map SharedNode.node).Sublist (c.stages d).output.order :=
  Graph.sharing_sublist _ _ _ _

theorem mem_latestFirst_of_shared {s : SharedNode} (h : s ∈ (c.resolver d).sharing.nodes) :
    s.node ∈ (c.resolver d).latestFirst.map Prod.fst := by
  rw [resolver, Resolver.of, List.map_reverse, List.mem_reverse]
  exact (c.sharing_sublist_order d).subset (List.mem_map_of_mem h)

/-- The stages of a compilation end with what `Graph.assemble_runs` describes. -/
theorem stages_assembly :
    (c.stages d).assembly =
        ⟨(c.stages d).graph.mappingsBy (c.resolver d),
          (c.stages d).graph.liveSharedBy c.registry (c.resolver d)⟩ ∧
      (c.stages d).resolutionDiagnostics =
        ((c.stages d).graph.missingBy (c.resolver d)).map .unbuildableReference := by
  have hmem : ∀ s ∈ (c.stages d).sharing.nodes, s.node ∈ (c.stages d).output.order :=
    fun s h ↦ (c.sharing_sublist_order d).subset (List.mem_map_of_mem h)
  obtain ⟨s, hrun, hs⟩ := @Graph.assemble_runs (c.stages d).graph c.registry _ _
    (c.resolver_latestFirst d) hmem {} (Resolver.knows_start _)
  exact ⟨congrArg Prod.fst hrun, (congrArg (·.2.reports) hrun).trans hs.reports⟩

theorem mappings_compile :
    (c.compile d).output.mappings = (c.stages d).graph.mappingsBy (c.resolver d) :=
  congrArg Assembly.mappings (c.stages_assembly d).1

theorem shared_compile :
    (c.compile d).output.shared = (c.stages d).graph.liveSharedBy c.registry (c.resolver d) :=
  congrArg Assembly.shared (c.stages_assembly d).1

theorem schemas_compile : (c.compile d).output.schemas = Sanitation.schemasOf d none none := rfl

theorem metadata_compile : (c.compile d).output.metadata = d.metadata := rfl

theorem unbuilt_compile : (c.compile d).unbuilt = (c.stages d).output.unbuilt := rfl

theorem diagnostics_compile :
    (c.compile d).diagnostics =
      ⟨(c.stages d).sanitationDiagnostics ++ (c.stages d).buildDiagnostics ++
        ((c.stages d).graph.missingBy (c.resolver d)).map .unbuildableReference⟩ := by
  rw [← (c.stages_assembly d).2]
  rfl

end Compiler

end MappingGraph
