import MappingGraph.Proofs.ArrayScope
import MappingGraph.Proofs.Upstream

/-!
# Which values are shared

A built node is shared if it is used often enough, is of a pure kind, costs enough, and does not
enter an array.  `Graph.WorthSharing` says this of the edges and nodes of the graph and of the
registry, without the searches and lists that it is computed with.  The computation comes to the same
(`Graph.isShareable_iff_worthSharing`).

A shared node is looked up by its id.  A program that does this often keeps an index from ids to
positions beside the list, and changes both at each push: this is `Sharing.Table`.  The index stays
in step with the list as long as no id is pushed twice (`Sharing.Table.InStep`), and then looking up
in the table is looking up in the list (`Sharing.Table.find?_of`).

`Compiler.sharing_selects` puts this together: the list has the nodes that are worth it and no
others, in the order in which they were built and each once, and the look-ups agree with it.
-/

set_option autoImplicit false

namespace MappingGraph

/-! ## Looking up shared nodes -/

namespace Sharing

variable {id : String} {nodes : List SharedNode}

/-- A list of shared nodes with an index from their ids to their positions. -/
structure Table where
  nodes : List SharedNode
  index : String → Option Nat

namespace Table

variable {t : Table} {s : SharedNode}

def empty : Table := ⟨[], fun _ ↦ none⟩

/-- Adds a node at the end.  If its id was there before, the index leads to the new one. -/
def push (t : Table) (s : SharedNode) : Table where
  nodes := t.nodes ++ [s]
  index id := if id = s.node then some t.nodes.length else t.index id

def of (nodes : List SharedNode) : Table := nodes.foldl push empty

def find? (t : Table) (id : String) : Option SharedNode := (t.index id).bind (t.nodes[·]?)

def contains (t : Table) (id : String) : Bool := (t.index id).isSome

/-- The index leads to a position exactly if the node with this id stands there. -/
def InStep (t : Table) : Prop :=
  ∀ id k, t.index id = some k ↔ (t.nodes.map SharedNode.node)[k]? = some id

/-- Adding a new node keeps the index in step. -/
theorem InStep.push (h : t.InStep) (hnew : s.node ∉ t.nodes.map SharedNode.node) :
    (t.push s).InStep := by
  have hpoints := Points.concat h hnew
  rw [List.length_map] at hpoints
  rw [InStep, Table.push, List.map_append]
  exact hpoints

/-- Adding nodes whose ids are new and different keeps the index in step. -/
theorem InStep.foldl_push (h : t.InStep) (hn : ((t.nodes ++ nodes).map SharedNode.node).Nodup) :
    (nodes.foldl Table.push t).InStep ∧ (nodes.foldl Table.push t).nodes = t.nodes ++ nodes := by
  induction nodes generalizing t with
  | nil => exact ⟨h, (List.append_nil _).symm⟩
  | cons s nodes ih =>
    rw [List.append_cons] at hn ⊢
    refine ih (h.push fun hmem ↦ ?_) hn
    rw [List.map_append, List.map_append] at hn
    exact (List.nodup_append'.mp (hn.sublist (List.sublist_append_left _ _))).2.2 hmem (by simp)

theorem empty_inStep : empty.InStep := fun id k ↦ by simp [empty]

theorem of_inStep (hn : (nodes.map SharedNode.node).Nodup) :
    (of nodes).InStep ∧ (of nodes).nodes = nodes :=
  empty_inStep.foldl_push hn

/-- **The table finds what the list has.** -/
theorem find?_of (sharing : Sharing) (hn : (sharing.nodes.map SharedNode.node).Nodup) :
    (of sharing.nodes).find? id = sharing.find? id := by
  obtain ⟨hstep, hnodes⟩ := of_inStep hn
  refine Option.ext fun s ↦ ?_
  rw [find?_eq_some_iff hn, find?, Option.bind_eq_some_iff, hnodes, List.mem_iff_getElem?]
  constructor
  · rintro ⟨k, hk, hs⟩
    have hid := (hstep id k).mp hk
    rw [hnodes, List.getElem?_map, hs] at hid
    exact ⟨⟨k, hs⟩, Option.some.inj hid⟩
  · rintro ⟨⟨k, hs⟩, rfl⟩
    exact ⟨k, (hstep _ k).mpr (by rw [hnodes, List.getElem?_map, hs]; rfl), hs⟩

theorem contains_of (hn : (nodes.map SharedNode.node).Nodup) :
    (of nodes).contains id = true ↔ id ∈ nodes.map SharedNode.node := by
  obtain ⟨hstep, hnodes⟩ := of_inStep hn
  rw [contains, Points.isSome_iff hstep, hnodes]

end Table

end Sharing

/-! ## What is worth sharing -/

namespace Graph

variable {g : Graph} {registry : Registry} {options : Options} {id : String}

/-- The number of edges that use the value of a node: those that lead from it into nodes or into
the target. -/
def useCount (g : Graph) (id : String) : Nat :=
  g.edges.countP fun e ↦ e.source = .node id ∧ (e.target = .target ∨ e.target.node?.isSome)

/-- The value of a built node is worth sharing, and may be shared. -/
structure WorthSharing (g : Graph) (registry : Registry) (minCost : Nat) (id : String)
    (x : BuiltExpr) : Prop where
  used : 2 ≤ g.useCount id
  pure : ∃ node info, g.node? id = some node ∧ registry.find? node.kind = some info ∧
    info.isPure = true
  costly : minCost ≤ x.cost
  outside : ¬ g.EntersArray id

/-- An end of an edge is a node or one of the two schemas. -/
theorem refCount_eq_useCount (g : Graph) (id : String) : g.refCount id = g.useCount id := by
  rw [refCount, outgoing, List.filter_filter, ← List.countP_eq_length_filter]
  refine List.countP_congr fun e _ ↦ ?_
  cases e.target <;> simp [Endpoint.node?]

theorem isShareable_iff_worthSharing {minCost : Nat} {x : BuiltExpr} :
    g.isShareable registry minCost g.arrayScoped id x = true ↔
      g.WorthSharing registry minCost id x := by
  rw [isShareable_iff, refCount_eq_useCount, mem_arrayScoped_iff]
  constructor
  · rintro ⟨hused, hpure, hout, hcost⟩
    exact ⟨hused, hpure, hcost, hout⟩
  · rintro ⟨hused, hpure, hcost, hout⟩
    exact ⟨hused, hpure, hout, hcost⟩

/-- The shared nodes are exactly those that are built and worth it, and are found by their ids. -/
structure Selects (g : Graph) (registry : Registry) (options : Options) (sharing : Sharing) :
    Prop where
  /-- The scope of the arrays has the nodes from which a way leads into one. -/
  scope : ∀ id, id ∈ g.arrayScoped ↔ g.EntersArray id
  /-- A search from all that fill arrays at once is one search after the other. -/
  restarts : g.arrayScoped = searches g.feeders g.ids g.arraySeeds
  /-- Neither the order of the edges nor their repetition matters to the scope. -/
  sameScope : ∀ edges : List Edge, (∀ e, e ∈ edges ↔ e ∈ g.edges) →
    ∀ id, id ∈ ({ g with edges } : Graph).arrayScoped ↔ id ∈ g.arrayScoped
  mem_iff : ∀ id, id ∈ sharing.nodes.map SharedNode.node ↔ options.hoistShared = true ∧
    ∃ x, (g.build registry).expr? id = some x ∧ g.WorthSharing registry options.minHoistCost id x
  nodup : (sharing.nodes.map SharedNode.node).Nodup
  inOrder : (sharing.nodes.map SharedNode.node).Sublist (g.build registry).order
  refCount : ∀ s ∈ sharing.nodes, s.refCount = g.useCount s.node
  find?_iff : ∀ id s, sharing.find? id = some s ↔ s ∈ sharing.nodes ∧ s.node = id
  contains_iff : ∀ id, sharing.contains id = true ↔ id ∈ sharing.nodes.map SharedNode.node
  /-- A table that the nodes are pushed to one by one gives the same answers. -/
  table : ∀ id, (Sharing.Table.of sharing.nodes).find? id = sharing.find? id ∧
    (Sharing.Table.of sharing.nodes).contains id = sharing.contains id

theorem selects_sharing (hg : g.ids.Nodup) :
    g.Selects registry options (g.sharing (g.build registry) registry options) := by
  have hsub := g.sharing_sublist (g.build registry) registry options
  have hn : ((g.sharing (g.build registry) registry options).nodes.map SharedNode.node).Nodup := by
    refine List.Nodup.sublist hsub ?_
    rw [order_build]
    exact (schedule_readyOrder hg).nodup
  have hcontains : ∀ id, (g.sharing (g.build registry) registry options).contains id = true ↔
      id ∈ (g.sharing (g.build registry) registry options).nodes.map SharedNode.node := fun id ↦ by
    rw [Sharing.contains, Option.isSome_iff_exists, List.mem_map]
    exact exists_congr fun s ↦ Sharing.find?_eq_some_iff hn
  exact
    { scope := fun _ ↦ mem_arrayScoped_iff
      restarts := gather_eq_searches _ _ _
      sameScope := fun _ h _ ↦ by
        rw [mem_arrayScoped_iff, mem_arrayScoped_iff]
        exact entersArray_congr (fun _ ↦ Iff.rfl) h
      mem_iff := fun id ↦ by
        simp only [mem_sharing_iff, mem_built_iff, isShareable_iff_worthSharing]
      nodup := hn
      inOrder := hsub
      refCount := fun s hs ↦ (refCount_of_mem_sharing hs).trans (refCount_eq_useCount g s.node)
      find?_iff := fun id s ↦ Sharing.find?_eq_some_iff hn
      contains_iff := hcontains
      table := fun id ↦ ⟨Sharing.Table.find?_of _ hn,
        Bool.eq_iff_iff.mpr ((Sharing.Table.contains_of hn).trans (hcontains id).symm)⟩ }

end Graph

/-- **What is shared is what is worth it**, in the graph of any document and in that of a
compilation.  In the latter every edge that leads into a node leads into one that exists, so that
there the uses are by nodes of the graph and by the target. -/
theorem Compiler.sharing_selects (c : Compiler) (d : Document) :
    let g := Graph.ofDocument d
    g.Selects c.registry c.options (g.sharing (g.build c.registry) c.registry c.options) ∧
      (c.stages d).graph.Selects c.registry c.options (c.stages d).sharing ∧
      ∀ e ∈ (c.stages d).graph.edges, ∀ id, e.target = .node id → id ∈ (c.stages d).graph.ids :=
  ⟨Graph.selects_sharing (Graph.nodup_ids_ofDocument d),
    Graph.selects_sharing (Graph.nodup_ids_ofDocument _), fun _ he _ ↦ c.mem_ids_of_target d he⟩

end MappingGraph
