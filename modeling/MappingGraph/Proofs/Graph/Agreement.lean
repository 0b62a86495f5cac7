import MappingGraph.Proofs.Graph.Index

/-!
# The index and the graph

A graph goes through all its nodes and edges for each answer, and an index looks the answer up.
`Index.Agrees` says that the two give the same.

A node is ready when all that it feeds on has been built.  Instead of asking for this again and
again, one may count down: at first by how many links a node is reached, and with every node that is
built one less for each link from it.  `Index.CountsDown` says that the count comes to nothing just
when the node is ready, so that no node is let go too early and none is held up.
-/

set_option autoImplicit false

namespace MappingGraph

theorem Graph.linkOf?_eq (g : Graph) (e : Edge) : g.linkOf? e =
    (e.source.node?.filter g.hasNode).bind fun tail ↦
      (e.target.node?.filter g.hasNode).map fun head ↦ (tail, head) := by
  rw [linkOf?]
  cases e.source.node? with
  | none => rfl
  | some tail =>
    cases e.target.node? with
    | none => simp
    | some head =>
      cases ht : g.hasNode tail <;> cases hh : g.hasNode head <;> simp [Option.filter_some, ht, hh]

namespace Index

variable {x : Index} {d : Document} {ns : List Node} {es : List Edge} {id : String} {i k : Nat}
  {built : List String}

/-! ## Answers -/

/-- The index answers as the graph does. -/
structure Agrees (x : Index) (g : Graph) : Prop where
  nodes : x.nodes = g.nodes
  index? : ∀ id, x.index? id = g.index? id
  contains : ∀ id, x.contains id = g.hasNode id
  node? : ∀ id, (x.index? id).bind x.node? = g.node? id
  incoming : ∀ id, x.incoming id = g.incoming id
  outgoing : ∀ id, x.outgoing id = g.outgoing id
  targetEdges : x.targetEdges = g.targetEdges
  links : x.links.map (fun l ↦ (x.idAt? l.tail, x.idAt? l.head, l.edge)) =
    g.links.map fun (tail, head, p) ↦ (some tail, some head, p)
  feeders : ∀ id k, x.index? id = some k →
    (x.linksInto k).map (x.idAt? ·.tail) = (g.feeders id).map some
  consumers : ∀ id k, x.index? id = some k →
    (x.linksFrom k).map (x.idAt? ·.head) = (g.consumers id).map some

namespace Holds

theorem contains_eq (h : x.Holds d.nodes es) (id : String) :
    x.contains id = (Graph.ofDocument d).hasNode id := by
  rw [Bool.eq_iff_iff, h.contains_iff, ← Graph.mem_ids_iff, Graph.mem_ids_ofDocument, List.mem_map]

theorem index?_eq (h : x.Holds d.nodes es) (id : String) :
    x.index? id = (Graph.ofDocument d).index? id := by
  have hsearch : (Graph.ofDocument d).index? id = (Graph.ofDocument d).ids.findIdx? (· = id) := by
    rw [Graph.ids, List.findIdx?_map]
    rfl
  refine Option.ext fun k ↦ ?_
  rw [h.points, h.nodes_eq, hsearch]
  exact (Points.findIdx? (Graph.nodup_ids_ofDocument d) id k).symm

theorem idAt?_eq (x : Index) (k : Nat) : x.idAt? k = (x.nodes.map Node.id)[k]? := by
  rw [idAt?, Index.node?, List.getElem?_map]

/-- What an end of an edge leads to in the index is the node that it names in the graph. -/
theorem map_idAt?_bind (h : x.Holds d.nodes es) (ending : Endpoint) :
    (ending.node?.bind x.index?).map x.idAt? =
      (ending.node?.filter (Graph.ofDocument d).hasNode).map some := by
  cases ending.node? with
  | none => rfl
  | some a =>
    rw [Option.bind_some, Option.filter_some, ← h.contains_eq, contains]
    cases hk : x.index? a with
    | none => rfl
    | some k =>
      rw [Option.map_some, idAt?_eq, (h.points a k).mp hk]
      rfl

theorem map_ends_links (h : x.Holds d.nodes d.edges) :
    x.links.map (fun l ↦ (x.idAt? l.tail, x.idAt? l.head, l.edge)) =
      (Graph.ofDocument d).links.map fun (tail, head, p) ↦ (some tail, some head, p) := by
  rw [h.links, Graph.links, List.map_filterMap, List.map_filterMap]
  refine List.filterMap_congr ?_
  rintro ⟨e, p⟩ -
  have hs := h.map_idAt?_bind e.source
  have ht := h.map_idAt?_bind e.target
  simp only [link?, Graph.linkOf?_eq]
  generalize e.source.node?.bind x.index? = tail at hs ⊢
  generalize e.target.node?.bind x.index? = head at ht ⊢
  generalize e.source.node?.filter _ = source at hs ⊢
  generalize e.target.node?.filter _ = target at ht ⊢
  cases tail <;> cases head <;> cases source <;> cases target <;> simp_all

theorem map_tail_linksInto (h : x.Holds d.nodes d.edges) (hk : x.index? id = some k) :
    (x.linksInto k).map (x.idAt? ·.tail) = ((Graph.ofDocument d).feeders id).map some := by
  rw [h.map_linksInto hk, Graph.feeders, Graph.inputIds, Graph.incoming, List.filter_filterMap,
    List.map_filterMap, List.filterMap_filter, ← filterMap_zipIdx]
  refine List.filterMap_congr ?_
  rintro ⟨e, p⟩ -
  simp only [decide_eq_true_eq]
  split
  · exact h.map_idAt?_bind e.source
  · rfl

theorem map_head_linksFrom (h : x.Holds d.nodes d.edges) (hk : x.index? id = some k) :
    (x.linksFrom k).map (x.idAt? ·.head) = ((Graph.ofDocument d).consumers id).map some := by
  rw [h.map_linksFrom hk, Graph.consumers, Graph.outgoing, List.filter_filterMap,
    List.map_filterMap, List.filterMap_filter, ← filterMap_zipIdx]
  refine List.filterMap_congr ?_
  rintro ⟨e, p⟩ -
  simp only [decide_eq_true_eq]
  split
  · exact h.map_idAt?_bind e.target
  · rfl

end Holds

theorem agrees_ofDocument (d : Document) : (ofDocument d).Agrees (Graph.ofDocument d) := by
  have h := holds_ofDocument d
  exact
    { nodes := h.nodes
      index? := h.index?_eq
      contains := h.contains_eq
      node? := h.node?_eq
      incoming := h.incoming
      outgoing := h.outgoing
      targetEdges := h.targetEdges
      links := h.map_ends_links
      feeders := fun _ _ ↦ h.map_tail_linksInto
      consumers := fun _ _ ↦ h.map_head_linksFrom }

/-! ## Counting -/

/-- How many links into a node start at nodes that are still to be built. -/
def pending (x : Index) (built : List String) (k : Nat) : Nat :=
  (x.linksInto k).countP fun l ↦ ∀ a ∈ built, x.idAt? l.tail ≠ some a

/-- Counting links tells when a node is ready. -/
structure CountsDown (x : Index) (g : Graph) : Prop where
  /-- At first all links into a node are pending. -/
  start : ∀ k, x.pending [] k = x.inDegree k
  /-- A node that is built takes off one for each link that leads from it. -/
  step : ∀ id i built k, x.index? id = some i → id ∉ built →
    x.pending (built ++ [id]) k + (x.linksFrom i).countP (·.head = k) = x.pending built k
  /-- A node is ready when none of the links into it is pending, unless an input is missing. -/
  isReady_iff : ∀ id k built, x.index? id = some k → (∀ a ∈ built, x.contains a = true) →
    (g.isReady built id = true ↔ x.pending built k = 0 ∧ g.missingInput? id = none)

theorem pending_nil (x : Index) (k : Nat) : x.pending [] k = x.inDegree k := by
  rw [pending, inDegree, List.countP_eq_length]
  exact fun _ _ ↦ decide_eq_true fun a ha ↦ absurd ha List.not_mem_nil

namespace Holds

theorem pending_concat (h : x.Holds ns es) (hi : x.index? id = some i) (hid : id ∉ built)
    (k : Nat) :
    x.pending (built ++ [id]) k + (x.linksFrom i).countP (·.head = k) = x.pending built k := by
  have htail : ∀ j, x.idAt? j = some id ↔ j = i := fun j ↦ by
    rw [idAt?_eq, ← h.points id j, hi, Option.some.injEq, eq_comm]
  have hwaits : ∀ l : Link, l.tail = i → ∀ a ∈ built, x.idAt? l.tail ≠ some a :=
    fun l hl a ha heq ↦ by
      rw [(htail _).mpr hl] at heq
      exact hid (Option.some.inj heq ▸ ha)
  -- the links that wait for the node, and the others
  rw [pending, pending, List.countP_eq_countP_filter_add (x.linksInto k)
    (fun l ↦ ∀ a ∈ built, x.idAt? l.tail ≠ some a) (·.tail = i), Nat.add_comm]
  refine congrArg₂ _ ?_ ?_
  · rw [linksFrom, linksInto, List.countP_filter, List.countP_filter, List.countP_filter]
    refine List.countP_congr fun l _ ↦ ?_
    simp only [Bool.and_eq_true, decide_eq_true_eq]
    constructor
    · rintro ⟨hk, hl⟩
      exact ⟨⟨hwaits l hl, hl⟩, hk⟩
    · rintro ⟨⟨-, hl⟩, hk⟩
      exact ⟨hk, hl⟩
  · rw [List.countP_filter]
    refine List.countP_congr fun l _ ↦ ?_
    simp [or_imp, forall_and, htail]

theorem pending_eq (h : x.Holds d.nodes d.edges) (hk : x.index? id = some k)
    (built : List String) :
    x.pending built k = ((Graph.ofDocument d).feeders id).countP (· ∉ built) := by
  have hcount := congrArg (List.countP fun o ↦ ∀ a ∈ built, o ≠ some a) (h.map_tail_linksInto hk)
  rw [List.countP_map, List.countP_map] at hcount
  refine hcount.trans (List.countP_congr fun a _ ↦ ?_)
  simp [List.forall_mem_ne]

theorem isReady_iff (h : x.Holds d.nodes d.edges) (hk : x.index? id = some k)
    (hbuilt : ∀ a ∈ built, x.contains a = true) : (Graph.ofDocument d).isReady built id = true ↔
      x.pending built k = 0 ∧ (Graph.ofDocument d).missingInput? id = none := by
  rw [h.pending_eq hk, List.countP_eq_zero, Graph.isReady_iff, Graph.missingInput?,
    List.find?_eq_none, Graph.feeders]
  simp only [List.mem_filter, decide_eq_true_eq, not_not, Bool.not_eq_true', Bool.not_eq_false]
  simp only [h.contains_eq] at hbuilt
  constructor
  · intro hready
    exact ⟨fun i hi ↦ hready i hi.1, fun i hi ↦ hbuilt i (hready i hi)⟩
  · rintro ⟨hfed, hthere⟩ i hi
    exact hfed i ⟨hi, hthere i hi⟩

end Holds

theorem countsDown_ofDocument (d : Document) :
    (ofDocument d).CountsDown (Graph.ofDocument d) where
  start := (ofDocument d).pending_nil
  step _ _ _ k hi hid := (holds_ofDocument d).pending_concat hi hid k
  isReady_iff _ _ _ hk hbuilt := (holds_ofDocument d).isReady_iff hk hbuilt

/-- **The index is in step with its document**, whatever ids repeat and wherever edges lead, and
with the graph that is built; and so are the counts of what a node waits for. -/
theorem ofDocument_inStep (d : Document) :
    (ofDocument d).Indexes d ∧ (ofDocument d).Agrees (Graph.ofDocument d) ∧
      (ofDocument d).CountsDown (Graph.ofDocument d) :=
  ⟨indexes_ofDocument d, agrees_ofDocument d, countsDown_ofDocument d⟩

end Index

end MappingGraph
