import MappingGraph.Graph.Index
import MappingGraph.Proofs.Upstream

/-!
# The index in step with its document

The parts of an index serve different questions.  How many nodes a node waits for is the number of
links into it, and what it is built of is read from the table of incoming edges.  If the two went
apart, a node would be built too early, or never.

They do not, since taking up a node or an edge changes all parts alike.  `Index.Holds` is the
invariant: it says what the parts have once some nodes and edges have been taken up
(`Index.Holds.addNode`, `Index.Holds.addEdge`).  `Index.Indexes` says of a whole document that its
index answers as it does.
-/

set_option autoImplicit false

namespace MappingGraph

/-! ## Tables -/

namespace EdgeTable

variable {t : EdgeTable} {id other : String} {e : Edge}

theorem row_push : (t.push id e).row other = t.row other ++ if id = other then [e] else [] := by
  induction t with
  | nil => simp [push, row]
  | cons r t ih =>
    obtain ⟨key, es⟩ := r
    rw [push]
    split
    · next hkey =>
      subst hkey
      by_cases h : key = other <;> simp [row, h]
    · next hkey =>
      rw [row, row, ih]
      split
      · next h =>
        subst h
        simp [Ne.symm hkey]
      · rfl

/-- An edge is entered at the end of one row. -/
theorem row_enter (t : EdgeTable) (ending : Endpoint) (e : Edge) (id : String) :
    (t.enter ending e).row id = t.row id ++ if ending = .node id then [e] else [] := by
  cases ending with
  | source => simp [enter, Endpoint.node?]
  | target => simp [enter, Endpoint.node?]
  | node other =>
    show (t.push other e).row id = _
    simp [row_push]

end EdgeTable

namespace Index

variable {x : Index} {d : Document} {ns : List Node} {es : List Edge} {e : Edge} {id : String}
  {k : Nat}

/-! ## Filling the index -/

/-- What the parts of the index have once some nodes and edges have been taken up. -/
structure Holds (x : Index) (ns : List Node) (es : List Edge) : Prop where
  nodes : x.nodes = Graph.firstById ns
  points : Points x.index? (x.nodes.map Node.id)
  links : x.links = es.zipIdx.filterMap fun (e, p) ↦ x.link? e p
  incoming : ∀ id, x.incoming id = es.filter (·.target = .node id)
  outgoing : ∀ id, x.outgoing id = es.filter (·.source = .node id)
  targetEdges : x.targetEdges = es.filter (·.target = .target)

theorem holds_empty : Holds {} [] [] where
  nodes := rfl
  points _ _ := by simp [index?]
  links := rfl
  incoming _ := rfl
  outgoing _ := rfl
  targetEdges := rfl

theorem lookup_cons_eq (positions : List (String × Nat)) (a : String) (k : Nat) :
    (fun b ↦ List.lookup b ((a, k) :: positions)) =
      fun b ↦ if b = a then some k else positions.lookup b := by
  funext b
  by_cases hb : b = a <;> simp [List.lookup_cons, hb, beq_false_of_ne]

namespace Holds

theorem mem_ids_iff (h : x.Holds ns es) : id ∈ x.nodes.map Node.id ↔ id ∈ ns.map Node.id := by
  rw [h.nodes, Graph.map_id_firstById, List.mem_eraseDups]

theorem contains_iff (h : x.Holds ns es) : x.contains id = true ↔ id ∈ ns.map Node.id := by
  rw [contains, h.points.isSome_iff, h.mem_ids_iff]

/-- Nodes are taken up before the edges: one that came later could turn an edge into a link. -/
theorem addNode (h : x.Holds ns []) (n : Node) : (x.addNode n).Holds (ns ++ [n]) [] := by
  rw [Index.addNode]
  split
  · next hold =>
    refine { h with nodes := ?_ }
    rw [Graph.firstById_concat, if_pos (h.contains_iff.mp hold), h.nodes]
  · next hnew =>
    rw [h.contains_iff] at hnew
    refine { h with nodes := ?_, points := ?_ }
    · rw [Graph.firstById_concat, if_neg hnew, h.nodes]
    · have hpoints := h.points.concat (mt h.mem_ids_iff.mp hnew)
      rw [List.length_map] at hpoints
      rw [List.map_append]
      exact (congrArg (Points · _) (lookup_cons_eq x.positions n.id x.nodes.length)).mpr hpoints

theorem addEdge (h : x.Holds ns es) (e : Edge) :
    (x.addEdge e es.length).Holds ns (es ++ [e]) where
  nodes := h.nodes
  points := h.points
  links := by
    show x.links ++ (x.link? e es.length).toList =
      (es ++ [e]).zipIdx.filterMap fun (e, p) ↦ x.link? e p
    rw [h.links, List.zipIdx_append, List.filterMap_append, Nat.zero_add, List.zipIdx_singleton]
    cases hlink : x.link? e es.length <;> simp [hlink]
  incoming id := by
    show (x.incomingTable.enter e.target e).row id = _
    rw [EdgeTable.row_enter, List.filter_append, ← h.incoming id]
    simp [List.filter_cons, Index.incoming]
  outgoing id := by
    show (x.outgoingTable.enter e.source e).row id = _
    rw [EdgeTable.row_enter, List.filter_append, ← h.outgoing id]
    simp [List.filter_cons, Index.outgoing]
  targetEdges := by
    show (if e.target = .target then x.targetEdges ++ [e] else x.targetEdges) = _
    rw [h.targetEdges, List.filter_append]
    by_cases ht : e.target = .target <;> simp [ht]

theorem addNodes (h : x.Holds ns []) (ms : List Node) :
    (ms.foldl Index.addNode x).Holds (ns ++ ms) [] := by
  induction ms generalizing x ns with
  | nil => rwa [List.append_nil]
  | cons m ms ih =>
    rw [List.append_cons]
    exact ih (h.addNode m)

theorem addEdges (h : x.Holds ns es) (fs : List Edge) :
    ((fs.zipIdx es.length).foldl (fun x (e, p) ↦ x.addEdge e p) x).Holds ns (es ++ fs) := by
  induction fs generalizing x es with
  | nil => rwa [List.append_nil]
  | cons f fs ih =>
    have hrest := ih (h.addEdge f)
    rw [List.length_append, List.length_singleton] at hrest
    rw [List.append_cons]
    exact hrest

end Holds

/-- **All of the document is taken up.** -/
theorem holds_ofDocument (d : Document) : (ofDocument d).Holds d.nodes d.edges :=
  (holds_empty.addNodes d.nodes).addEdges d.edges

/-! ## Links and edges -/

theorem link?_eq_some_iff {p : Nat} {l : Link} : x.link? e p = some l ↔
    e.source.node?.bind x.index? = some l.tail ∧ e.target.node?.bind x.index? = some l.head ∧
      l.edge = p := by
  obtain ⟨tail, head, edge⟩ := l
  rw [link?]
  cases e.source.node?.bind x.index? <;> cases e.target.node?.bind x.index? <;>
    simp [eq_comm]

theorem filterMap_zipIdx {β : Type} (es : List Edge) (f : Edge → Option β) :
    es.zipIdx.filterMap (fun (e, _) ↦ f e) = es.filterMap f := by
  conv_rhs => rw [← List.zipIdx_map_fst 0 es, List.filterMap_map]
  rfl

namespace Holds

variable {β : Type}

theorem index?_iff (h : x.Holds ns es) :
    x.index? id = some k ↔ ∃ n, x.node? k = some n ∧ n.id = id := by
  rw [h.points id k, List.getElem?_map, Option.map_eq_some_iff]
  rfl

theorem bind_index?_eq_some_iff (h : x.Holds ns es) (hk : x.index? id = some k)
    {ending : Endpoint} : ending.node?.bind x.index? = some k ↔ ending = .node id := by
  rw [Option.bind_eq_some_iff]
  constructor
  · rintro ⟨a, ha, hindex⟩
    rw [Endpoint.node?_eq_some_iff.mp ha, h.points.eq_of_eq_some hindex hk]
  · rintro rfl
    exact ⟨id, rfl, hk⟩

/-- The links at a node are made by the edges at it, one after the other.  The end `near` of an edge
is the one at the node, and `far` is the other one. -/
theorem map_links (h : x.Holds ns es) (hk : x.index? id = some k) (near far : Edge → Endpoint)
    (position : Link → Nat) (make : Nat → Nat → Nat → Link)
    (hposition : ∀ i j p, position (make i j p) = i)
    (hmake : ∀ e p, x.link? e p = ((near e).node?.bind x.index?).bind fun i ↦
      ((far e).node?.bind x.index?).map fun j ↦ make i j p) (f : Link → β) :
    (x.links.filter (position · = k)).map f = es.zipIdx.filterMap fun (e, p) ↦
      if near e = .node id then ((far e).node?.bind x.index?).map fun j ↦ f (make k j p)
      else none := by
  rw [h.links, List.filter_filterMap, List.map_filterMap]
  refine List.filterMap_congr ?_
  rintro ⟨e, p⟩ -
  simp only [hmake, ← h.bind_index?_eq_some_iff hk]
  cases (far e).node?.bind x.index? with
  | none => cases (near e).node?.bind x.index? <;> simp
  | some j =>
    cases (near e).node?.bind x.index? with
    | none => simp
    | some i => by_cases hi : i = k <;> simp [Option.filter_some, hposition, hi]

theorem map_linksInto (h : x.Holds ns es) (hk : x.index? id = some k) (f : Link → β) :
    (x.linksInto k).map f = es.zipIdx.filterMap fun (e, p) ↦
      if e.target = .node id then (e.source.node?.bind x.index?).map fun tail ↦ f ⟨tail, k, p⟩
      else none := by
  refine h.map_links hk (·.target) (·.source) (·.head) (fun head tail p ↦ ⟨tail, head, p⟩)
    (fun _ _ _ ↦ rfl) (fun e p ↦ ?_) f
  rw [link?]
  cases e.source.node?.bind x.index? <;> cases e.target.node?.bind x.index? <;> rfl

theorem map_linksFrom (h : x.Holds ns es) (hk : x.index? id = some k) (f : Link → β) :
    (x.linksFrom k).map f = es.zipIdx.filterMap fun (e, p) ↦
      if e.source = .node id then (e.target.node?.bind x.index?).map fun head ↦ f ⟨k, head, p⟩
      else none := by
  refine h.map_links hk (·.source) (·.target) (·.tail) (fun tail head p ↦ ⟨tail, head, p⟩)
    (fun _ _ _ ↦ rfl) (fun e p ↦ ?_) f
  rw [link?]
  cases e.source.node?.bind x.index? <;> cases e.target.node?.bind x.index? <;> rfl

end Holds

end Index

/-! ## The document -/

/-- Whether the end is a node of the document. -/
def Document.namesNode (d : Document) (ending : Endpoint) : Bool :=
  d.nodes.any fun n ↦ ending = .node n.id

namespace Index

variable {x : Index} {d : Document} {ns : List Node} {es : List Edge} {id : String} {k : Nat}

/-- The index answers as the document does. -/
structure Indexes (x : Index) (d : Document) : Prop where
  /-- The nodes have the ids of the document, in the order in which these appear first. -/
  ids : ListsFirst (d.nodes.map Node.id) (x.nodes.map Node.id)
  /-- Of several nodes with one id, the first is there. -/
  first : ∀ n ∈ x.nodes, d.node? n.id = some n
  index?_iff : ∀ id k, x.index? id = some k ↔ ∃ n, x.node? k = some n ∧ n.id = id
  contains_iff : ∀ id, x.contains id = true ↔ ∃ n ∈ d.nodes, n.id = id
  node? : ∀ id, (x.index? id).bind x.node? = d.node? id
  incoming : ∀ id, x.incoming id = d.edges.filter (·.target = .node id)
  outgoing : ∀ id, x.outgoing id = d.edges.filter (·.source = .node id)
  targetEdges : x.targetEdges = d.edges.filter (·.target = .target)
  /-- The edges with a node at both ends make one link each, in their order, and no other edge makes
  one. -/
  links : x.links.map Link.edge =
    (d.edges.zipIdx.filter fun (e, _) ↦ d.namesNode e.source && d.namesNode e.target).map Prod.snd
  /-- A link leads from the node where its edge starts to the node where it ends. -/
  ends : ∀ l ∈ x.links, ∃ e m n, d.edges[l.edge]? = some e ∧
    (x.node? l.tail = some m ∧ e.source = .node m.id) ∧
    (x.node? l.head = some n ∧ e.target = .node n.id)
  /-- The links into a node are those of its incoming edges that start at a node. -/
  linksInto : ∀ id k, x.index? id = some k →
    (x.linksInto k).map (d.edges[·.edge]?) =
      ((x.incoming id).filter (d.namesNode ·.source)).map some
  inDegree : ∀ id k, x.index? id = some k →
    x.inDegree k = (x.incoming id).countP (d.namesNode ·.source)

namespace Holds

theorem isSome_bind_index? (h : x.Holds d.nodes es) (ending : Endpoint) :
    (ending.node?.bind x.index?).isSome = d.namesNode ending := by
  cases ending with
  | source => simp [Document.namesNode, Endpoint.node?]
  | target => simp [Document.namesNode, Endpoint.node?]
  | node a =>
    show x.contains a = _
    rw [Bool.eq_iff_iff, h.contains_iff, Document.namesNode, List.any_eq_true, List.mem_map]
    refine exists_congr fun n ↦ and_congr_right fun _ ↦ ?_
    rw [decide_eq_true_iff, Endpoint.node.injEq, eq_comm]

theorem map_edge_links (h : x.Holds d.nodes es) : x.links.map Link.edge =
    (es.zipIdx.filter fun (e, _) ↦ d.namesNode e.source && d.namesNode e.target).map Prod.snd := by
  rw [h.links, List.map_filterMap, ← List.filterMap_eq_map, List.filterMap_filter]
  refine List.filterMap_congr ?_
  rintro ⟨e, p⟩ -
  simp only [← h.isSome_bind_index?, link?]
  cases e.source.node?.bind x.index? <;> cases e.target.node?.bind x.index? <;> rfl

theorem ends (h : x.Holds ns es) {l : Link} (hl : l ∈ x.links) :
    ∃ e m n, es[l.edge]? = some e ∧ (x.node? l.tail = some m ∧ e.source = .node m.id) ∧
      (x.node? l.head = some n ∧ e.target = .node n.id) := by
  have hend : ∀ {ending : Endpoint} {k : Nat}, ending.node?.bind x.index? = some k →
      ∃ n, x.node? k = some n ∧ ending = .node n.id := fun hbind ↦ by
    obtain ⟨a, ha, hk⟩ := Option.bind_eq_some_iff.mp hbind
    obtain ⟨n, hn, rfl⟩ := h.index?_iff.mp hk
    exact ⟨n, hn, Endpoint.node?_eq_some_iff.mp ha⟩
  rw [h.links] at hl
  obtain ⟨⟨e, p⟩, he, hlink⟩ := List.mem_filterMap.mp hl
  obtain ⟨hs, ht, rfl⟩ := link?_eq_some_iff.mp hlink
  obtain ⟨m, hm⟩ := hend hs
  obtain ⟨n, hn⟩ := hend ht
  exact ⟨e, m, n, List.mem_zipIdx_iff_getElem?.mp he, hm, hn⟩

theorem map_edge_linksInto (h : x.Holds d.nodes es) (hk : x.index? id = some k) :
    (x.linksInto k).map (es[·.edge]?) =
      ((x.incoming id).filter (d.namesNode ·.source)).map some := by
  rw [h.map_linksInto hk, h.incoming, ← List.filterMap_eq_map, List.filterMap_filter,
    List.filterMap_filter, ← filterMap_zipIdx]
  refine List.filterMap_congr ?_
  rintro ⟨e, p⟩ he
  simp only [List.mem_zipIdx_iff_getElem?.mp he, decide_eq_true_eq, ← h.isSome_bind_index?]
  by_cases ht : e.target = .node id
  · simp only [ht, ↓reduceIte]
    cases e.source.node?.bind x.index? <;> rfl
  · simp only [ht, ↓reduceIte]

theorem inDegree_eq (h : x.Holds d.nodes es) (hk : x.index? id = some k) :
    x.inDegree k = (x.incoming id).countP (d.namesNode ·.source) := by
  have hlength := congrArg List.length (h.map_edge_linksInto hk)
  rwa [List.length_map, List.length_map, ← List.countP_eq_length_filter] at hlength

theorem nodes_eq (h : x.Holds d.nodes es) : x.nodes = (Graph.ofDocument d).nodes := h.nodes

theorem node?_eq (h : x.Holds d.nodes es) (id : String) :
    (x.index? id).bind x.node? = (Graph.ofDocument d).node? id := by
  refine Option.ext fun n ↦ ?_
  rw [Graph.node?_eq_some_iff (Graph.nodup_ids_ofDocument d), ← h.nodes_eq, Option.bind_eq_some_iff,
    List.mem_iff_getElem?]
  constructor
  · rintro ⟨k, hk, hn⟩
    obtain ⟨m, hm, hid⟩ := h.index?_iff.mp hk
    exact ⟨⟨k, hn⟩, Option.some.inj (hm.symm.trans hn) ▸ hid⟩
  · rintro ⟨⟨k, hn⟩, hid⟩
    exact ⟨k, h.index?_iff.mpr ⟨n, hn, hid⟩, hn⟩

end Holds

theorem indexes_ofDocument (d : Document) : (ofDocument d).Indexes d := by
  have h := holds_ofDocument d
  exact
    { ids := by
        rw [h.nodes, Graph.map_id_firstById]
        exact listsFirst_eraseDups _
      first := fun n hn ↦ by
        rw [← Graph.node?_ofDocument]
        exact Graph.node?_of_mem (Graph.nodup_ids_ofDocument d) (h.nodes_eq ▸ hn)
      index?_iff := fun _ _ ↦ h.index?_iff
      contains_iff := fun _ ↦ h.contains_iff.trans List.mem_map
      node? := fun id ↦ (h.node?_eq id).trans (Graph.node?_ofDocument d id)
      incoming := h.incoming
      outgoing := h.outgoing
      targetEdges := h.targetEdges
      links := h.map_edge_links
      ends := fun _ ↦ h.ends
      linksInto := fun _ _ ↦ h.map_edge_linksInto
      inDegree := fun _ _ ↦ h.inDegree_eq }

end Index

end MappingGraph
