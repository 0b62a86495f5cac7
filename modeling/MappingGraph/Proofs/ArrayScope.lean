import MappingGraph.Proofs.Build.Complete
import MappingGraph.Proofs.Purity
import MappingGraph.Proofs.Schema.Handle

/-!
# Nothing is shared inside arrays

A field inside an array of the target is computed for each item anew, so no value that enters it may
be shared.  `Graph.arrayScoped` collects the nodes above such fields from the handles of the edges:
exactly those with a way along edges to a node that fills one (`Graph.mem_arrayScoped_iff`).  What is
written into the output is a path without labels and an expression with the values of many nodes in
it.  `Compiler.compile_inlinesArrays` says that the two fit together.

A reference left in a field belongs to a shared node above it (`Resolver.refs_use`).  For a field
inside an array this node is in the scope of the array, since what a node uses is linked to it
(`Graph.mem_arrayScoped_of_way`), and no such node is shared.
-/

set_option autoImplicit false

namespace MappingGraph

namespace Graph

variable {g h : Graph} {registry : Registry} {start id other : String}

/-! ## The scope of an array -/

/-- An edge leads from the node into a field inside an array of the target. -/
def FillsArray (g : Graph) (id : String) : Prop :=
  ∃ e ∈ g.edges, e.source = .node id ∧ e.target = .target ∧
    ∃ handle, e.targetHandle = some handle ∧ ['[', ']'] <:+: handle.toList

/-- A way along edges between nodes, of any length, leads from the node to one that fills a field
inside an array. -/
def EntersArray (g : Graph) (id : String) : Prop :=
  id ∈ g.ids ∧ ∃ last, Relation.ReflTransGen g.Link id last ∧ g.FillsArray last

theorem entersArray_congr (hids : ∀ id, id ∈ g.ids ↔ id ∈ h.ids)
    (hedges : ∀ e, e ∈ g.edges ↔ e ∈ h.edges) : g.EntersArray id ↔ h.EntersArray id := by
  simp only [EntersArray, FillsArray, link_congr hids hedges, hids, hedges]

theorem mem_feeders_iff : other ∈ g.feeders id ↔ other ∈ g.inputIds id ∧ other ∈ g.ids := by
  rw [feeders, List.mem_filter, mem_ids_iff]

/-- The nodes above some nodes are those with a way to one of them. -/
theorem mem_ancestors_iff {starts : List String} : id ∈ g.ancestors starts ↔
    id ∈ g.ids ∧ ∃ last ∈ starts, Relation.ReflTransGen g.Link id last := by
  rw [ancestors, mem_gather_iff]
  constructor
  · intro h
    refine ⟨h.mem, ?_⟩
    induction h with
    | start _ hs => exact ⟨_, hs, .refl⟩
    | step hreached hc hb ih =>
      obtain ⟨last, hlast, hway⟩ := ih
      have hlink := link_iff.mpr ⟨hc, hreached.mem, (mem_feeders_iff.mp hb).1⟩
      exact ⟨last, hlast, .head hlink hway⟩
  · rintro ⟨hid, last, hlast, hway⟩
    -- The search goes against the edges, so the induction is from the end of the way.
    induction hway using Relation.ReflTransGen.head_induction_on with
    | refl => exact .start hid hlast
    | head hlink _ ih =>
      obtain ⟨_, hmem, hin⟩ := link_iff.mp hlink
      exact .step (ih hmem) hid (mem_feeders_iff.mpr ⟨hin, hid⟩)

/-- The nodes that the search for the scope starts at, one for each edge. -/
def arraySeeds (g : Graph) : List String :=
  (g.targetEdges.filter fun e ↦ Handle.isArrayPath e.targetPath).filterMap (·.source.node?)

/-- An edge without a handle leads into no array. -/
theorem isArrayPath_targetPath_iff {e : Edge} : Handle.isArrayPath e.targetPath = true ↔
    ∃ handle, e.targetHandle = some handle ∧ ['[', ']'] <:+: handle.toList := by
  rw [Handle.isArrayPath_iff, Edge.targetPath]
  cases e.targetHandle <;> simp

theorem mem_arraySeeds_iff : id ∈ g.arraySeeds ↔ g.FillsArray id := by
  simp only [arraySeeds, targetEdges, FillsArray, List.mem_filterMap, List.mem_filter,
    decide_eq_true_eq, Endpoint.node?_eq_some_iff, isArrayPath_targetPath_iff]
  refine exists_congr fun e ↦ ?_
  constructor
  · rintro ⟨⟨⟨he, ht⟩, ha⟩, hs⟩
    exact ⟨he, hs, ht, ha⟩
  · rintro ⟨he, hs, ht, ha⟩
    exact ⟨⟨⟨he, ht⟩, ha⟩, hs⟩

/-- **The scope of the arrays**, however the edges are ordered and repeated. -/
theorem mem_arrayScoped_iff : id ∈ g.arrayScoped ↔ g.EntersArray id := by
  change id ∈ g.ancestors g.arraySeeds ↔ _
  simp only [mem_ancestors_iff, EntersArray, mem_arraySeeds_iff, and_comm]

/-- What a built node uses is linked to it. -/
theorem link_of_uses (hg : g.ids.Nodup) (h : Uses (g.build registry).built start id) :
    g.Link id start := by
  obtain ⟨e, hmem, p, hp, rfl⟩ := h
  have hids : ∀ {i}, i ∈ (g.build registry).order → i ∈ g.ids := fun hi ↦ by
    rw [order_build] at hi
    exact mem_ids_of_mem_schedule hi
  have hp' : p.node ∈ g.ids := by
    have := (build_latestFirst hg registry).refs_mem (List.mem_reverse.mpr hmem) hp
    rw [List.map_reverse, List.mem_reverse] at this
    exact hids this
  refine link_iff.mpr ⟨hp', hids (List.mem_map_of_mem hmem), ?_⟩
  obtain ⟨node, hnode, rfl⟩ := exists_node?_of_mem_built hmem
  exact id_of_node? hnode ▸ mem_inputIds_of_mem_refs hp

/-- **The scope of an array has all that a field inside it depends on.** -/
theorem mem_arrayScoped_of_way (hg : g.ids.Nodup) {e : Edge} (he : e ∈ g.targetEdges)
    (harray : Handle.isArrayPath e.targetPath = true) (hs : e.source = .node start)
    (hid : id ∈ g.ids)
    (hway : Relation.ReflTransGen (Uses (g.build registry).built) start id) :
    id ∈ g.arrayScoped := by
  obtain ⟨hmem, ht⟩ := List.mem_filter.mp he
  have hfills : g.FillsArray start :=
    ⟨e, hmem, hs, of_decide_eq_true ht, isArrayPath_targetPath_iff.mp harray⟩
  have hlinks : Relation.ReflTransGen g.Link id start :=
    Relation.reflTransGen_swap.mp
      (Relation.ReflTransGen.mono (fun _ _ ↦ link_of_uses hg) start id hway)
  exact mem_arrayScoped_iff.mpr ⟨hid, start, hlinks, hfills⟩

end Graph

/-- No shared value is used where the target goes through the items of an array. -/
def CompiledMapping.InlinesArrays (m : CompiledMapping) : Prop :=
  ∀ f ∈ m.mappings, ['[', ']'] <:+: f.targetPath.toList → f.expression.refs = []

namespace Compiler

variable (c : Compiler) (d : Document)

theorem not_mem_arrayScoped_of_shareable {id : String} (h : c.Shareable d id) :
    id ∉ (c.stages d).graph.arrayScoped := by
  obtain ⟨e, _, he⟩ := h
  obtain ⟨_, _, hid, _⟩ := Graph.isShareable_iff.mp he
  exact hid

/-- **A field inside an array has no shared value in it**, whatever the document. -/
theorem compile_inlinesArrays : (c.compile d).output.InlinesArrays := by
  intro f hf harray
  rw [mappings_compile] at hf
  obtain ⟨e, he, rfl⟩ := List.mem_map.mp hf
  have hpath := Handle.isArrayPath_of_isArrayPath_cleanPath (Handle.isArrayPath_iff.mpr harray)
  rw [List.eq_nil_iff_forall_not_mem]
  intro ref href
  change ref ∈ ((c.resolver d).ofEdge e).refs at href
  rw [Resolver.ofEdge] at href
  cases hs : e.source with
  | source => rw [hs] at href; exact absurd href List.not_mem_nil
  | target => rw [hs] at href; exact absurd href List.not_mem_nil
  | node start =>
    rw [hs] at href
    obtain ⟨hname, hway⟩ := Resolver.refs_use (c.resolver_latestFirst d) href
    rw [uses_resolver, stages_output] at hway
    obtain ⟨s, hs', hnode, _⟩ := Sharing.exists_of_varName? hname
    have hshared : ref.node ∈ (c.resolver d).sharing.nodes.map SharedNode.node :=
      hnode ▸ List.mem_map_of_mem hs'
    have hshareable := ((c.mem_sharing_iff d).mp hshared).2
    have hid : ref.node ∈ (c.stages d).graph.ids := by
      obtain ⟨x, hx, _⟩ := hshareable
      have horder := List.mem_map_of_mem (f := Prod.fst) hx
      rw [stages_output, ← BuildOutput.order, Graph.order_build] at horder
      exact Graph.mem_ids_of_mem_schedule horder
    exact c.not_mem_arrayScoped_of_shareable d hshareable
      (Graph.mem_arrayScoped_of_way (Graph.nodup_ids_ofDocument _) he hpath hs hid hway)

end Compiler

end MappingGraph
