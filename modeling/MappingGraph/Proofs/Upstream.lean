import Mathlib.Data.Set.Basic
import MappingGraph.Proofs.Unbuilt

/-!
# What a mapping depends on

The expression of a node is made of its settings and its inputs, and resolving it leads on to the
nodes its inputs come from.  So if nothing is shared, a mapping should depend on what is upstream of
it and on nothing else: not on other nodes and edges, nor on cycles elsewhere.

`Graph.SameAbove` says of two graphs that they agree on a set of ids which no input enters from
outside.  On such a set the same nodes are built (`Graph.SameAbove.mem_schedule_iff`), with the same
expressions (`Graph.SameAbove.expr?_build`), and have the same values (`Resolver.value_eq_value`).
The queue, which decides in what order nodes are built, may run very differently for the two graphs,
and therefore none of this is a simulation of the one run by the other.  What is used of a schedule
is that a node is in it if all its inputs are, and that these then come first.  The induction is
along the schedule of one graph, and the order in which the other is built does not matter.

Sharing is another matter.  Whether a value is shared depends on how often it is used, which is
downstream of it.
-/

set_option autoImplicit false

namespace MappingGraph

namespace Graph

variable {g h : Graph} {registry : Registry} {ids : Set String} {id other : String}

/-! ## Inputs and expressions -/

/-- The ids that a node has inputs from can be told from its input expressions. -/
theorem mem_inputIds_iff_mem_collect :
    other ∈ g.inputIds id ↔ .reference ⟨other⟩ ∈ Inputs.collect (g.incoming id) := by
  rw [inputIds, List.mem_filterMap, Inputs.collect, List.mem_map]
  simp only [Inputs.mem_ordered_iff]
  refine exists_congr fun e ↦ and_congr_right fun _ ↦ ?_
  cases hs : e.source <;> simp [Inputs.ofEdge, hs, Endpoint.node?, Expr.null]

theorem isSome_node?_iff : (g.node? id).isSome ↔ id ∈ g.ids := by
  rw [node?, List.find?_isSome, ids, List.mem_map]
  simp only [decide_eq_true_eq]

/-- **The expression of a node**, if it is built. -/
theorem expr?_build (g : Graph) (registry : Registry) (id : String) :
    (g.build registry).expr? id =
      if id ∈ g.schedule then (g.node? id).map (g.exprOf registry) else none := by
  have hsome := @isSome_expr?_iff id (g.build registry)
  rw [order_build] at hsome
  split
  · next hid =>
    obtain ⟨e, he⟩ := Option.isSome_iff_exists.mp (hsome.mpr hid)
    obtain ⟨node, hnode, rfl⟩ := exists_node?_of_mem_built (mem_built_of_expr? he)
    rw [he, hnode, Option.map_some]
  · next hid => exact Option.not_isSome_iff_eq_none.mp (mt hsome.mp hid)

theorem mem_built_iff {e : BuiltExpr} :
    (id, e) ∈ (g.build registry).built ↔ (g.build registry).expr? id = some e := by
  refine ⟨fun hmem ↦ ?_, mem_built_of_expr?⟩
  have hid : id ∈ g.schedule := by
    rw [← order_build g registry]
    exact List.mem_map_of_mem hmem
  obtain ⟨node, hnode, rfl⟩ := exists_node?_of_mem_built hmem
  rw [expr?_build, if_pos hid, hnode, Option.map_some]

/-! ## Graphs that agree above some ids -/

/-- The graphs have the same nodes with the same inputs at some ids, and these inputs do not come
from other ids. -/
structure SameAbove (ids : Set String) (g h : Graph) : Prop where
  node? : ∀ id ∈ ids, g.node? id = h.node? id
  inputs : ∀ id ∈ ids, Inputs.collect (g.incoming id) = Inputs.collect (h.incoming id)
  closed : ∀ id ∈ ids, ∀ i ∈ g.inputIds id, i ∈ ids

namespace SameAbove

theorem mem_inputIds_iff (hs : SameAbove ids g h) (hid : id ∈ ids) :
    other ∈ g.inputIds id ↔ other ∈ h.inputIds id := by
  rw [mem_inputIds_iff_mem_collect, mem_inputIds_iff_mem_collect, hs.inputs id hid]

theorem mem_ids_iff (hs : SameAbove ids g h) (hid : id ∈ ids) : id ∈ g.ids ↔ id ∈ h.ids := by
  rw [← isSome_node?_iff, ← isSome_node?_iff, hs.node? id hid]

theorem symm (hs : SameAbove ids g h) : SameAbove ids h g where
  node? id hid := (hs.node? id hid).symm
  inputs id hid := (hs.inputs id hid).symm
  closed id hid i hi := hs.closed id hid i ((hs.mem_inputIds_iff hid).mpr hi)

/-- What the one graph builds is built by the other.  The induction is on the place in the schedule:
the inputs of a node come before it. -/
theorem mem_schedule (hs : SameAbove ids g h) (hg : g.ids.Nodup) (hh : h.ids.Nodup)
    (hid : id ∈ ids) (hmem : id ∈ g.schedule) : id ∈ h.schedule := by
  induction hn : g.schedule.idxOf id using Nat.strongRecOn generalizing id with
  | _ n ih =>
    subst hn
    have hnode := (hs.mem_ids_iff hid).mp (mem_ids_of_mem_schedule hmem)
    refine mem_schedule_of_inputIds hh hnode fun i hi ↦ ?_
    have hi' := (hs.mem_inputIds_iff hid).mpr hi
    exact ih _ (idxOf_lt_of_mem_inputIds hg hmem hi') (hs.closed id hid i hi')
      (mem_schedule_of_mem_inputIds hg hmem hi') rfl

/-- **The same nodes are built.** -/
theorem mem_schedule_iff (hs : SameAbove ids g h) (hg : g.ids.Nodup) (hh : h.ids.Nodup)
    (hid : id ∈ ids) : id ∈ g.schedule ↔ id ∈ h.schedule :=
  ⟨hs.mem_schedule hg hh hid, hs.symm.mem_schedule hh hg hid⟩

/-- **They have the same expressions.** -/
theorem expr?_build (hs : SameAbove ids g h) (hg : g.ids.Nodup) (hh : h.ids.Nodup)
    (registry : Registry) (hid : id ∈ ids) :
    (g.build registry).expr? id = (h.build registry).expr? id := by
  rw [Graph.expr?_build, Graph.expr?_build, ← hs.node? id hid]
  simp only [hs.mem_schedule_iff hg hh hid]
  cases hnode : g.node? id with
  | none => rfl
  | some node =>
    rw [Option.map_some, Option.map_some, exprOf, exprOf, id_of_node? hnode, hs.inputs id hid]

end SameAbove

end Graph

/-! ## Values without sharing -/

namespace Resolver

variable {r s : Resolver} {ids : Set String} {id : String}

/-- **Values depend on expressions only.**  If two resolvers have the same expressions at some ids
and these refer to no others, then without sharing the ids have the same values. -/
theorem value_eq_value (hr : LatestFirst r.latestFirst) (hs : LatestFirst s.latestFirst)
    (hsame : ∀ id ∈ ids, ∀ e, (id, e) ∈ r.latestFirst ↔ (id, e) ∈ s.latestFirst)
    (hclosed : ∀ id ∈ ids, ∀ e, (id, e) ∈ r.latestFirst → ∀ p ∈ e.refs, p.node ∈ ids)
    (hid : id ∈ ids) : r.unshared.value id = s.unshared.value id := by
  have hbuilt : id ∈ r.latestFirst.map Prod.fst ↔ id ∈ s.latestFirst.map Prod.fst := by
    simp only [List.mem_map, Prod.exists, exists_and_right, exists_eq_right]
    exact exists_congr (hsame id hid)
  by_cases hmem : id ∈ r.latestFirst.map Prod.fst
  · clear hbuilt
    revert hid
    refine hr.ind hmem fun n e he ih hn ↦ ?_
    rw [value_eq (r := r.unshared) hr he, value_eq (r := s.unshared) hs ((hsame n hn e).mp he)]
    refine Expr.mapRefs_congr fun p hp ↦ ?_
    rw [use_unshared, use_unshared, ih p hp (hclosed n hn e he p hp)]
  · rw [value_of_not_mem (r := r.unshared) hmem,
      value_of_not_mem (r := s.unshared) (mt hbuilt.mpr hmem)]

/-- Without sharing, an edge from a node brings its value. -/
theorem ofEdge_unshared {e : Edge} (hs : e.source = .node id) :
    r.unshared.ofEdge e = r.unshared.value id := by
  rw [ofEdge, hs]
  exact use_unshared r id

end Resolver

/-! ## Two compilations -/

/-- The documents are the same above some ids: each of these names the same first node, or none, in
both; the same edges lead there, in the same order; and these edges start at the schemas or at such
ids. -/
structure Document.SameAbove (ids : Set String) (d e : Document) : Prop where
  node? : ∀ id ∈ ids, d.node? id = e.node? id
  edges : ∀ id ∈ ids, d.edges.filter (·.target = .node id) = e.edges.filter (·.target = .node id)
  closed : ∀ id ∈ ids, ∀ x ∈ d.edges, x.target = .node id → ∀ i, x.source = .node i → i ∈ ids

namespace Graph

theorem node?_ofDocument (d : Document) (id : String) : (ofDocument d).node? id = d.node? id := by
  rw [node?, Document.node?, ofDocument]
  induction d.nodes with
  | nil => rfl
  | cons n ns ih =>
    rw [firstById, List.find?_cons, List.find?_cons]
    split
    · rfl
    · next hn =>
      rw [← ih, List.find?_filter]
      refine congrArg (List.find? · (firstById ns)) (funext fun m ↦ ?_)
      have hne : id ≠ n.id := fun heq ↦ of_decide_eq_false hn heq.symm
      by_cases hm : m.id = id <;> simp [hm, hne]

theorem sameAbove_ofDocument {ids : Set String} {d e : Document} (h : d.SameAbove ids e) :
    SameAbove ids (ofDocument d) (ofDocument e) where
  node? id hid := by rw [node?_ofDocument, node?_ofDocument, h.node? id hid]
  inputs id hid := congrArg Inputs.collect (h.edges id hid)
  closed id hid i hi := by
    obtain ⟨x, hx, hs, ht⟩ := mem_inputIds_iff.mp hi
    exact h.closed id hid x hx ht i hs

end Graph

namespace Compiler

variable (c : Compiler) {d e : Document} {ids : Set String} {id : String}

/-- The two compilations agree at a node: on whether it is built, on its expression, and on the
mapping of every edge from it into the same field of the target. -/
structure AgreesAt (c : Compiler) (d e : Document) (id : String) : Prop where
  built : id ∈ (c.stages d).output.order ↔ id ∈ (c.stages e).output.order
  expr : (c.stages d).output.expr? id = (c.stages e).output.expr? id
  /-- There is one mapping for each edge into the target, in their order. -/
  mapping : ∀ (i : Nat) (x : Edge), (c.stages d).graph.targetEdges[i]? = some x →
    ∀ (j : Nat) (y : Edge), (c.stages e).graph.targetEdges[j]? = some y →
      x.source = .node id → y.source = .node id → x.targetPath = y.targetPath →
        ∃ m, (c.compile d).output.mappings[i]? = some m ∧ (c.compile e).output.mappings[j]? = some m

theorem resolver_eq_unshared (hc : c.options.hoistShared = false) (d : Document) :
    c.resolver d = (c.resolver d).unshared := by
  have hsharing : (c.stages d).sharing = ⟨[]⟩ := by
    rw [stages_sharing]
    exact if_neg (by rw [hc]; exact Bool.false_ne_true)
  rw [resolver, hsharing]
  rfl

/-- The mapping of an edge into the target. -/
theorem mappings_getElem? {i : Nat} {x : Edge}
    (hx : (c.stages d).graph.targetEdges[i]? = some x) : (c.compile d).output.mappings[i]? =
      some ⟨Handle.cleanPath x.targetPath, (c.resolver d).ofEdge x⟩ := by
  rw [mappings_compile, Graph.mappingsBy, List.getElem?_map, hx, Option.map_some]

/-- The values of a compilation that does not share are the same where the graphs agree. -/
theorem value_eq_value (hs : Graph.SameAbove ids (c.stages d).graph (c.stages e).graph)
    (hid : id ∈ ids) :
    (c.resolver d).unshared.value id = (c.resolver e).unshared.value id := by
  have hg : (c.stages d).graph.ids.Nodup := Graph.nodup_ids_ofDocument _
  have hh : (c.stages e).graph.ids.Nodup := Graph.nodup_ids_ofDocument _
  refine Resolver.value_eq_value (c.resolver_latestFirst d) (c.resolver_latestFirst e)
    (fun id hid x ↦ ?_) (fun id hid x hx p hp ↦ ?_) hid
  · rw [resolver, resolver, Resolver.of, Resolver.of, List.mem_reverse, List.mem_reverse,
      stages_output, stages_output, Graph.mem_built_iff, Graph.mem_built_iff,
      hs.expr?_build hg hh c.registry hid]
  · rw [resolver, Resolver.of, List.mem_reverse, stages_output] at hx
    obtain ⟨node, hnode, rfl⟩ := Graph.exists_node?_of_mem_built hx
    have hin := Graph.id_of_node? hnode ▸ Graph.mem_inputIds_of_mem_refs hp
    exact hs.closed id hid p.node hin

/-- **A mapping depends only on what is upstream of it**, provided that nothing is shared.  If two
documents, once sanitized, are the same above some ids, the compilations agree at these, whatever
else there is in the documents. -/
theorem agreesAt_of_sameAbove (hc : c.options.hoistShared = false)
    (h : (sanitized d).SameAbove ids (sanitized e)) (hid : id ∈ ids) : c.AgreesAt d e id := by
  have hs : Graph.SameAbove ids (c.stages d).graph (c.stages e).graph :=
    Graph.sameAbove_ofDocument h
  have hg : (c.stages d).graph.ids.Nodup := Graph.nodup_ids_ofDocument _
  have hh : (c.stages e).graph.ids.Nodup := Graph.nodup_ids_ofDocument _
  refine ⟨?_, ?_, fun i x hx j y hy hxs hys hpath ↦ ?_⟩
  · rw [stages_output, stages_output, Graph.order_build, Graph.order_build,
      hs.mem_schedule_iff hg hh hid]
  · rw [stages_output, stages_output, hs.expr?_build hg hh c.registry hid]
  · have hvalue : (c.resolver d).ofEdge x = (c.resolver e).ofEdge y := by
      rw [c.resolver_eq_unshared hc d, c.resolver_eq_unshared hc e, Resolver.ofEdge_unshared hxs,
        Resolver.ofEdge_unshared hys, c.value_eq_value hs hid]
    exact ⟨_, c.mappings_getElem? hx, by rw [c.mappings_getElem? hy, hpath, hvalue]⟩

/-- A fee is a fixed rate with the sign turned. -/
def fee : Document where
  nodes := [⟨"rate", .constant, none, .object [("value", .string "1")]⟩,
    ⟨"fee", .negate, none, .null⟩]
  edges := [⟨"e1", .node "rate", none, .node "fee", some "input-0"⟩,
    ⟨"e2", .node "fee", none, .target, some "$.fee"⟩]

/-- The same fee in a document with a cycle that it feeds and with another node of the name. -/
def feeBesideCycle : Document where
  nodes := [⟨"left", .add, none, .null⟩,
    ⟨"rate", .constant, none, .object [("value", .string "1")]⟩, ⟨"fee", .negate, none, .null⟩,
    ⟨"right", .add, none, .null⟩, ⟨"fee", .now, none, .null⟩]
  edges := [⟨"c1", .node "left", none, .node "right", some "input-0"⟩,
    ⟨"c2", .node "right", none, .node "left", some "input-0"⟩,
    ⟨"c3", .node "fee", none, .node "left", some "input-1"⟩,
    ⟨"c4", .node "right", none, .target, some "$.sum"⟩,
    ⟨"e1", .node "rate", none, .node "fee", some "input-0"⟩,
    ⟨"e2", .node "fee", none, .target, some "$.fee"⟩]

theorem agreesAt_fee :
    (sanitized fee).SameAbove {"rate", "fee"} (sanitized feeBesideCycle) ∧
      ({ options := { hoistShared := false } } : Compiler).AgreesAt fee feeBesideCycle "fee" := by
  have hd : sanitized fee = fee := (Sanitation.settled_of_forall (by decide)).clean
  have he : sanitized feeBesideCycle = feeBesideCycle :=
    (Sanitation.settled_of_forall (by decide)).clean
  have hstarts : ∀ x ∈ fee.edges, ∀ i ∈ x.source.node?, i = "rate" ∨ i = "fee" := by decide
  have h : (sanitized fee).SameAbove {"rate", "fee"} (sanitized feeBesideCycle) := by
    rw [hd, he]
    refine ⟨?_, ?_, fun _ _ x hx _ i hs ↦ hstarts x hx i (by rw [hs]; rfl)⟩
    · rintro id (rfl | rfl) <;> rfl
    · rintro id (rfl | rfl) <;> rfl
  exact ⟨h, agreesAt_of_sameAbove _ rfl h (.inr rfl)⟩

end Compiler

end MappingGraph
