import MappingGraph.Proofs.ArrayScope
import MappingGraph.Proofs.Build.Reasons
import MappingGraph.Proofs.Candor
import MappingGraph.Proofs.Upstream

/-!
# The order of a document

An editor saves nodes and edges in whatever order they were drawn, and that should not matter.  The
order does decide in which order nodes are built, how shared values are named, and in which order
things are told.  `Compiler.SameUpToOrder` has what is left of two compilations when all this is set
aside, and the last theorem says that it is the same for a document and for the same document in
another order.

Two things have to be asked of the document.  If an id is given to two nodes, the first of them
counts; and edges into a node that have the same position, or none, keep the order of the document.
`Document.Unambiguous` excludes both.  Then the inputs of a node are the same in every order
(`Inputs.ordered_perm`), so the graphs agree on all ids, and `Graph.SameAbove` says the most of it.
What remains are the questions that look downstream: cycles, uses, and fields inside arrays.
-/

set_option autoImplicit false

namespace MappingGraph

/-! ## Graphs in another order -/

namespace Graph

variable {g h : Graph} {registry : Registry} {id : String}

/-- The graphs have the same nodes and edges, in whatever order. -/
structure Reordered (g h : Graph) : Prop where
  nodes : g.nodes.Perm h.nodes
  edges : g.edges.Perm h.edges

namespace Reordered

theorem ids (hp : Reordered g h) : g.ids.Perm h.ids := hp.nodes.map _

theorem incoming (hp : Reordered g h) (id : String) : (g.incoming id).Perm (h.incoming id) :=
  hp.edges.filter _

theorem targetEdges (hp : Reordered g h) : g.targetEdges.Perm h.targetEdges := hp.edges.filter _

theorem refCount (hp : Reordered g h) (id : String) : g.refCount id = h.refCount id :=
  ((hp.edges.filter _).filter _).length_eq

theorem onCycle (hp : Reordered g h) (id : String) : g.onCycle id = h.onCycle id := by
  rw [Bool.eq_iff_iff, onCycle_iff, onCycle_iff, Cyclic, Cyclic,
    link_congr (fun _ ↦ hp.ids.mem_iff) fun _ ↦ hp.edges.mem_iff]

theorem mem_arrayScoped (hp : Reordered g h) : id ∈ g.arrayScoped ↔ id ∈ h.arrayScoped := by
  rw [mem_arrayScoped_iff, mem_arrayScoped_iff]
  exact entersArray_congr (fun _ ↦ hp.ids.mem_iff) fun _ ↦ hp.edges.mem_iff

theorem lacksInput (hp : Reordered g h) : g.LacksInput id ↔ h.LacksInput id := by
  simp only [LacksInput, hp.edges.mem_iff, hp.ids.mem_iff]

theorem missingInput? (hp : Reordered g h) (id : String) :
    (g.missingInput? id).isSome = (h.missingInput? id).isSome := by
  rw [Bool.eq_iff_iff, ← Option.ne_none_iff_isSome, ← Option.ne_none_iff_isSome, ne_eq, ne_eq,
    missingInput?_eq_none_iff, missingInput?_eq_none_iff, not_not, not_not, hp.lacksInput]

end Reordered

/-- Graphs in another order agree on all ids. -/
theorem Reordered.sameAbove (hp : Reordered g h) (hg : g.ids.Nodup)
    (hpos : ∀ id, Inputs.Positioned (g.incoming id)) : SameAbove Set.univ g h where
  node? id _ := Option.ext fun n ↦ by
    rw [node?_eq_some_iff hg, node?_eq_some_iff (hp.ids.nodup_iff.mp hg), hp.nodes.mem_iff]
  inputs id _ := congrArg (List.map Inputs.ofEdge) (Inputs.ordered_perm (hpos id) (hp.incoming id))
  closed _ _ _ _ := Set.mem_univ _

end Graph

/-- The form of a reason, without the id in it. -/
def UnbuiltReason.form : UnbuiltReason → Form
  | cycle => .cycle
  | missingInput _ => .missingInput
  | feederUnbuilt _ => .feederUnbuilt

namespace Graph

variable {g h : Graph} {registry : Registry} {options : Options} {id : String}

theorem form_unbuiltReason (g : Graph) (built : List String) (id : String) :
    (g.unbuiltReason built id).form =
      if g.onCycle id then .cycle
      else if (g.missingInput? id).isSome then .missingInput else .feederUnbuilt := by
  rw [unbuiltReason]
  cases g.onCycle id with
  | true => rfl
  | false => cases g.missingInput? id <;> rfl

section Perm

variable (hp : Reordered g h) (hg : g.ids.Nodup) (hs : SameAbove Set.univ g h)

include hp hg hs

theorem schedule_perm : g.schedule.Perm h.schedule := by
  have hh : h.ids.Nodup := hp.ids.nodup_iff.mp hg
  refine (List.perm_ext_iff_of_nodup (schedule_readyOrder hg).nodup
    (schedule_readyOrder hh).nodup).mpr fun id ↦ ?_
  exact hs.mem_schedule_iff hg hh (Set.mem_univ id)

theorem built_perm (registry : Registry) :
    (g.build registry).built.Perm (h.build registry).built := by
  have hh : h.ids.Nodup := hp.ids.nodup_iff.mp hg
  have hnodup : ∀ {g : Graph}, g.ids.Nodup → (g.build registry).built.Nodup := fun {g} hg ↦ by
    refine .of_map Prod.fst ?_
    change (g.build registry).order.Nodup
    rw [order_build]
    exact (schedule_readyOrder hg).nodup
  refine (List.perm_ext_iff_of_nodup (hnodup hg) (hnodup hh)).mpr fun ⟨id, e⟩ ↦ ?_
  rw [mem_built_iff, mem_built_iff, hs.expr?_build hg hh registry (Set.mem_univ id)]

theorem unbuilt_perm : ((g.unbuilt g.schedule).map fun u ↦ (u.node, u.reason.form)).Perm
    ((h.unbuilt h.schedule).map fun u ↦ (u.node, u.reason.form)) := by
  rw [unbuilt, unbuilt, List.map_map, List.map_map]
  have hform : (fun u : UnbuiltNode ↦ (u.node, u.reason.form)) ∘
        (fun id ↦ ⟨id, g.unbuiltReason g.schedule id⟩) =
      (fun u : UnbuiltNode ↦ (u.node, u.reason.form)) ∘
        (fun id ↦ ⟨id, h.unbuiltReason h.schedule id⟩) := by
    funext id
    rw [Function.comp_apply, Function.comp_apply, form_unbuiltReason, form_unbuiltReason,
      hp.onCycle, hp.missingInput?]
  have hfilter : h.ids.filter (· ∉ g.schedule) = h.ids.filter (· ∉ h.schedule) :=
    List.filter_congr fun id _ ↦ decide_eq_decide.mpr
      (not_congr (schedule_perm hp hg hs).mem_iff)
  rw [hform, ← hfilter]
  exact (hp.ids.filter _).map _

theorem sharing_perm (registry : Registry) (options : Options) :
    ((g.sharing (g.build registry) registry options).nodes.map fun s ↦ (s.node, s.refCount)).Perm
      ((h.sharing (h.build registry) registry options).nodes.map fun s ↦ (s.node, s.refCount)) := by
  rw [sharing, sharing]
  split
  · have hshareable : ∀ id e, g.isShareable registry options.minHoistCost g.arrayScoped id e =
        h.isShareable registry options.minHoistCost h.arrayScoped id e := fun id e ↦ by
      rw [isShareable, isShareable, hp.refCount, hs.node? id (Set.mem_univ id),
        decide_eq_decide.mpr (not_congr hp.mem_arrayScoped)]
    simp only [map_nameShared, hshareable, hp.refCount]
    exact (((built_perm hp hg hs registry).filter _).map _).map _
  · exact .refl _

end Perm

end Graph

/-! ## Documents in another order -/

namespace Document

/-- The documents are the same except for the order of nodes and edges. -/
structure Reordered (d e : Document) : Prop where
  nodes : d.nodes.Perm e.nodes
  edges : d.edges.Perm e.edges
  sourceSchema : d.sourceSchema = e.sourceSchema
  targetSchema : d.targetSchema = e.targetSchema
  overlays : d.overlays = e.overlays
  metadata : d.metadata = e.metadata

/-- The order of the document decides nothing: no id is given to two nodes, and the edges into a
node have positions, no two of them the same. -/
structure Unambiguous (d : Document) : Prop where
  nodup : (d.nodes.map (·.id)).Nodup
  inputs : ∀ n ∈ d.nodes, Inputs.Positioned (d.edges.filter (·.target = .node n.id))

end Document

namespace Sanitation

variable {d e : Document} {s : Schemas}

theorem endStands_of_perm (h : d.nodes.Perm e.nodes) (handle : String) {endpoint : Endpoint}
    (hd : EndStands d s handle endpoint) : EndStands e s handle endpoint := by
  cases endpoint with
  | source | target => exact hd
  | node id =>
    obtain ⟨n, hn, hid⟩ := hd
    exact ⟨n, h.mem_iff.mp hn, hid⟩

theorem stands_iff_of_perm (h : d.nodes.Perm e.nodes) (x : Edge) :
    Stands d s x ↔ Stands e s x :=
  ⟨fun hd ↦ ⟨endStands_of_perm h _ hd.1, endStands_of_perm h _ hd.2⟩,
    fun he ↦ ⟨endStands_of_perm h.symm _ he.1, endStands_of_perm h.symm _ he.2⟩⟩

theorem schemasOf_of_reordered (h : d.Reordered e) :
    schemasOf d none none = schemasOf e none none := by
  rw [schemasOf, schemasOf, h.overlays, h.sourceSchema, h.targetSchema]

/-- The same edges are kept. -/
theorem edges_clean_perm (h : d.Reordered e) : (clean d s).edges.Perm (clean e s).edges := by
  rw [clean_eq, clean_eq, List.filter_congr fun x _ ↦
    decide_eq_decide.mpr (stands_iff_of_perm h.nodes x)]
  exact h.edges.filter _

end Sanitation

namespace Compiler

variable (c : Compiler) {d e : Document}

/-- The compilations are the same, leaving aside in which order things stand and how shared values
are called. -/
structure SameUpToOrder (c : Compiler) (d e : Document) : Prop where
  /-- The same edges are left by sanitation. -/
  edges : (c.stages d).cleaned.edges.Perm (c.stages e).cleaned.edges
  order : (c.stages d).output.order.Perm (c.stages e).output.order
  expr : ∀ id, (c.stages d).output.expr? id = (c.stages e).output.expr? id
  unbuilt : ((c.compile d).unbuilt.map fun u ↦ (u.node, u.reason.form)).Perm
    ((c.compile e).unbuilt.map fun u ↦ (u.node, u.reason.form))
  sharing : ((c.stages d).sharing.nodes.map fun s ↦ (s.node, s.refCount)).Perm
    ((c.stages e).sharing.nodes.map fun s ↦ (s.node, s.refCount))
  /-- After enough rounds of expansion, the mappings are the same. -/
  mappings : ∀ m ≥ (c.compile d).output.shared.length, ∀ n ≥ (c.compile e).output.shared.length,
    ((c.compile d).output.expanded m).Perm ((c.compile e).output.expanded n)
  /-- Enough rounds leave no reference. -/
  refs : ∀ n ≥ (c.compile d).output.shared.length, ∀ m ∈ (c.compile d).output.expanded n,
    m.expression.refs = []

theorem refs_of_mem_expanded (d : Document) {n : Nat}
    (hn : (c.compile d).output.shared.length ≤ n) {m : FieldMapping}
    (hm : m ∈ (c.compile d).output.expanded n) : m.expression.refs = [] := by
  rw [c.expanded_eq d hn] at hm
  refine List.eq_nil_iff_forall_not_mem.mpr fun ref href ↦ ?_
  have hnone := Graph.varName?_of_mapping (r := (c.resolver d).unshared)
    (c.resolver_latestFirst d) hm href
  cases hnone

theorem graph_reordered (hd : d.Unambiguous) (h : d.Reordered e) :
    Graph.Reordered (c.stages d).graph (c.stages e).graph := by
  have he : (e.nodes.map (·.id)).Nodup := (h.nodes.map _).nodup_iff.mp hd.nodup
  constructor
  · change (Graph.firstById d.nodes).Perm (Graph.firstById e.nodes)
    rw [Graph.firstById_eq_self_iff.mpr hd.nodup, Graph.firstById_eq_self_iff.mpr he]
    exact h.nodes
  · change (Sanitation.clean d _).edges.Perm (Sanitation.clean e _).edges
    rw [← Sanitation.schemasOf_of_reordered h]
    exact Sanitation.edges_clean_perm h

/-- The edges into a node have positions; an edge into an id that names no node is not left. -/
theorem positioned_incoming (hd : d.Unambiguous) (id : String) :
    Inputs.Positioned ((c.stages d).graph.incoming id) := by
  have hsub : ((c.stages d).graph.incoming id).Sublist (d.edges.filter (·.target = .node id)) :=
    List.filter_sublist.filter _
  by_cases hid : ∃ n ∈ d.nodes, n.id = id
  · obtain ⟨n, hn, rfl⟩ := hid
    exact ⟨fun x hx ↦ (hd.inputs n hn).isSome x (hsub.subset hx),
      (hsub.map _).nodup (hd.inputs n hn).nodup⟩
  · have hempty : (c.stages d).graph.incoming id = [] := List.filter_eq_nil_iff.mpr fun x hx ht ↦ by
      have hstands := (c.stands_of_mem_edges d hx).2
      rw [of_decide_eq_true ht] at hstands
      exact hid hstands
    rw [hempty]
    exact ⟨fun _ hx ↦ absurd hx List.not_mem_nil, List.nodup_nil⟩

/-- **The order of a document does not matter**, if the document does not leave anything to it. -/
theorem sameUpToOrder_of_reordered (hd : d.Unambiguous) (h : d.Reordered e) :
    c.SameUpToOrder d e := by
  have hp := c.graph_reordered hd h
  have hg : (c.stages d).graph.ids.Nodup := Graph.nodup_ids_ofDocument _
  have hh : (c.stages e).graph.ids.Nodup := Graph.nodup_ids_ofDocument _
  have hs := hp.sameAbove hg (c.positioned_incoming hd)
  refine ⟨hp.edges, ?_, fun id ↦ ?_, ?_, ?_, fun m hm n hn ↦ ?_, fun _ hn _ ↦
    c.refs_of_mem_expanded d hn⟩
  · exact (Graph.built_perm hp hg hs c.registry).map _
  · rw [stages_output, stages_output]
    exact hs.expr?_build hg hh c.registry (Set.mem_univ id)
  · exact Graph.unbuilt_perm hp hg hs
  · exact Graph.sharing_perm hp hg hs c.registry c.options
  · rw [c.expanded_eq d hm, c.expanded_eq e hn, Graph.mappingsBy, Graph.mappingsBy]
    have hedge : ∀ x, (c.resolver d).unshared.ofEdge x = (c.resolver e).unshared.ofEdge x :=
      fun x ↦ by
        cases hx : x.source with
        | source | target => rw [Resolver.ofEdge, Resolver.ofEdge, hx]
        | node id =>
          rw [Resolver.ofEdge_unshared hx, Resolver.ofEdge_unshared hx,
            c.value_eq_value hs (Set.mem_univ id)]
    simp only [hedge]
    exact hp.targetEdges.map _

/-- The price of so many pieces goes into two fields of a receipt. -/
def receipt : Document where
  nodes := [⟨"price", .constant, none, .object [("value", .string "3")]⟩,
    ⟨"total", .multiply, none, .null⟩]
  edges := [⟨"e1", .source, some "$.pieces", .node "total", some "input-1"⟩,
    ⟨"e2", .node "price", none, .node "total", some "input-0"⟩,
    ⟨"e3", .node "total", none, .target, some "$.total"⟩,
    ⟨"e4", .node "total", none, .target, some "$.due"⟩]

/-- The same receipt, written from the end. -/
def receiptReversed : Document :=
  { receipt with nodes := receipt.nodes.reverse, edges := receipt.edges.reverse }

theorem sameUpToOrder_receipt : receipt.Unambiguous ∧ receipt.Reordered receiptReversed ∧
    ({} : Compiler).SameUpToOrder receipt receiptReversed := by
  have hisSome : ∀ n ∈ receipt.nodes, ∀ e ∈ receipt.edges.filter (·.target = .node n.id),
      e.inputIndex?.isSome := by decide
  have hnodup : ∀ n ∈ receipt.nodes,
      ((receipt.edges.filter (·.target = .node n.id)).map (·.inputIndex?)).Nodup := by decide
  have hd : receipt.Unambiguous := ⟨by decide, fun n hn ↦ ⟨hisSome n hn, hnodup n hn⟩⟩
  have h : receipt.Reordered receiptReversed :=
    ⟨(List.reverse_perm _).symm, (List.reverse_perm _).symm, rfl, rfl, rfl, rfl⟩
  exact ⟨hd, h, sameUpToOrder_of_reordered _ hd h⟩

end Compiler

end MappingGraph
