import Mathlib.Data.Fintype.EquivFin
import Mathlib.Data.Set.Finite.List
import MappingGraph.Proofs.Build.Refs

/-!
# Which nodes are built

A node cannot be built if it lies on a cycle or has an input from an id that names no node, and
neither can any node behind such a one.  `Graph.mem_schedule_iff` says that all others are built.

There are two halves to it.  The queue never loses a node: `Graph.Thorough` is the invariant that
every node with all its inputs built is built itself or queued, and since what is built and queued
is a list of different nodes of the graph, the queue is empty when the steps are used up.  So a node
that was left out has an input that was left out (`Graph.mem_schedule_of_inputIds`).  Going on from
input to input must then come to an end, for there are finitely many nodes and no cycle above: the
argument is an induction along the edges, which are well-founded there.

`Graph.build_soundAndComplete` puts this together with the order of building.
-/

set_option autoImplicit false

namespace MappingGraph.Graph

variable {g h : Graph} {registry : Registry} {queue built order done : List String}
  {id other a b : String}

/-! ## The queue loses nothing -/

theorem mem_consumers_iff : other ∈ g.consumers id ↔ id ∈ g.inputIds other ∧ other ∈ g.ids := by
  refine ⟨fun h ↦ ⟨mem_inputIds_of_mem_consumers h, mem_ids_of_mem_consumers h⟩, ?_⟩
  rintro ⟨hin, hids⟩
  obtain ⟨e, he, hs, ht⟩ := mem_inputIds_iff.mp hin
  simp only [consumers, outgoing, List.mem_filter, List.mem_filterMap, decide_eq_true_eq]
  exact ⟨⟨e, ⟨he, hs⟩, by rw [ht]; rfl⟩, mem_ids_iff.mp hids⟩

/-- What holds of the queue and of what was built in addition to `Waiting`: both have nodes of the
graph only, and no node that could be built is missing from them. -/
structure Thorough (g : Graph) (queue built : List String) : Prop where
  waiting : g.Waiting queue built
  nodup : built.Nodup
  mem_ids : ∀ a ∈ built ++ queue, a ∈ g.ids
  covers : ∀ a ∈ g.ids, (∀ i ∈ g.inputIds a, i ∈ built) → a ∈ built ++ queue

namespace Thorough

/-- A node that could not be built before `id` was has `id` among its inputs, so `id` releases
it. -/
theorem step (h : g.Thorough (id :: queue) built) :
    g.Thorough (queue ++ g.released (built ++ [id]) id) (built ++ [id]) := by
  have hid : id ∉ built := h.waiting.new id List.mem_cons_self
  refine ⟨h.waiting.step, ?_, fun a ha ↦ ?_, fun a hids hin ↦ ?_⟩
  · rw [← List.concat_eq_append]
    exact h.nodup.concat hid
  · rw [← List.append_assoc, List.append_assoc built, List.mem_append] at ha
    rcases ha with ha | ha
    · exact h.mem_ids a ha
    · exact mem_ids_of_mem_consumers (mem_released_iff.mp ha).1
  · rw [← List.append_assoc, List.append_assoc built, List.mem_append]
    by_cases hfeeds : id ∈ g.inputIds a
    · exact .inr (mem_released_iff.mpr ⟨mem_consumers_iff.mpr ⟨hfeeds, hids⟩, hin⟩)
    · refine .inl (h.covers a hids fun i hi ↦ ?_)
      rcases List.mem_append.mp (hin i hi) with hb | hb
      · exact hb
      · exact absurd (List.mem_singleton.mp hb ▸ hi) hfeeds

theorem length_le (h : g.Thorough queue built) : built.length + queue.length ≤ g.ids.length := by
  have hnodup : (built ++ queue).Nodup :=
    List.nodup_append'.mpr ⟨h.nodup, h.waiting.nodup, fun a hb hq ↦ h.waiting.new a hq hb⟩
  rw [← List.length_append]
  exact (hnodup.subperm h.mem_ids).length_le

end Thorough

/-- With a step for each node that is left, everything that could be built is. -/
theorem scheduleFrom_covers (steps : Nat) (h : g.Thorough queue built)
    (hsteps : g.ids.length ≤ built.length + steps) (hids : id ∈ g.ids)
    (hin : ∀ i ∈ g.inputIds id, i ∈ g.scheduleFrom steps queue built) :
    id ∈ g.scheduleFrom steps queue built := by
  induction steps generalizing queue built with
  | zero =>
    have hempty : queue = [] := List.eq_nil_of_length_eq_zero (by have := h.length_le; omega)
    subst hempty
    have := h.covers id hids hin
    rwa [List.append_nil] at this
  | succ steps ih =>
    cases queue with
    | nil =>
      have := h.covers id hids hin
      rwa [List.append_nil] at this
    | cons next queue =>
      refine ih h.step ?_ hin
      rw [List.length_append, List.length_singleton]
      omega

/-- A node is built as soon as all its inputs are. -/
theorem mem_schedule_of_inputIds (hg : g.ids.Nodup) (hids : id ∈ g.ids)
    (hin : ∀ i ∈ g.inputIds id, i ∈ g.schedule) : id ∈ g.schedule := by
  refine scheduleFrom_covers _ ⟨waiting_start hg, List.nodup_nil, ?_, ?_⟩ ?_ hids hin
  · exact fun a ha ↦ (List.mem_filter.mp ha).1
  · exact fun a hids hin ↦ List.mem_filter.mpr ⟨hids, isReady_iff.mpr hin⟩
  · rw [ids, List.length_map, List.length_nil, Nat.zero_add]

/-! ## What comes before a built node -/

theorem ReadyOrder.idxOf_lt (h : g.ReadyOrder done order) (hid : id ∈ order)
    (hin : other ∈ g.inputIds id) : other ∈ done ∨ order.idxOf other < order.idxOf id := by
  induction order generalizing done with
  | nil => exact absurd hid List.not_mem_nil
  | cons next order ih =>
    obtain ⟨hnew, hready, hrest⟩ := h
    rcases List.mem_cons.mp hid with rfl | hmem
    · exact .inl (hready other hin)
    · have hne : next ≠ id := by
        rintro rfl
        exact hrest.not_mem_done hmem (List.mem_append_right _ (List.mem_singleton_self _))
      rcases ih hrest hmem with hdone | hlt
      · rcases List.mem_append.mp hdone with hd | hd
        · exact .inl hd
        · rw [List.mem_singleton.mp hd, List.idxOf_cons_self, List.idxOf_cons_ne _ hne]
          exact .inr (Nat.succ_pos _)
      · by_cases hother : next = other
        · rw [hother, List.idxOf_cons_self, List.idxOf_cons_ne _ (hother ▸ hne)]
          exact .inr (Nat.succ_pos _)
        · rw [List.idxOf_cons_ne _ hother, List.idxOf_cons_ne _ hne]
          exact .inr (Nat.succ_lt_succ hlt)

/-- **Whatever a built node has an edge from was built before it.** -/
theorem idxOf_lt_of_mem_inputIds (hg : g.ids.Nodup) (hid : id ∈ g.schedule)
    (hin : other ∈ g.inputIds id) : g.schedule.idxOf other < g.schedule.idxOf id :=
  ((schedule_readyOrder hg).idxOf_lt hid hin).resolve_left List.not_mem_nil

theorem mem_schedule_of_mem_inputIds (hg : g.ids.Nodup) (hid : id ∈ g.schedule)
    (hin : other ∈ g.inputIds id) : other ∈ g.schedule :=
  List.idxOf_lt_length_iff.mp
    ((idxOf_lt_of_mem_inputIds hg hid hin).trans (List.idxOf_lt_length_of_mem hid))

/-! ## Cycles and missing inputs -/

/-- An edge of the graph leads from the one node to the other. -/
def Link (g : Graph) (tail head : String) : Prop :=
  tail ∈ g.ids ∧ head ∈ g.ids ∧ ∃ e ∈ g.edges, e.source = .node tail ∧ e.target = .node head

/-- The node lies on a cycle of edges between nodes. -/
def Cyclic (g : Graph) (id : String) : Prop := Relation.TransGen g.Link id id

/-- An edge leads to the node from an id that names no node. -/
def LacksInput (g : Graph) (id : String) : Prop :=
  ∃ e ∈ g.edges, e.target = .node id ∧ ∃ i, e.source = .node i ∧ i ∉ g.ids

theorem link_iff : g.Link a b ↔ a ∈ g.ids ∧ b ∈ g.ids ∧ a ∈ g.inputIds b := by
  rw [Link, mem_inputIds_iff]

/-- Neither the order of nodes and edges nor their repetition matters to what is linked. -/
theorem link_congr (hids : ∀ id, id ∈ g.ids ↔ id ∈ h.ids)
    (hedges : ∀ e, e ∈ g.edges ↔ e ∈ h.edges) : g.Link = h.Link := by
  funext tail head
  simp only [Link, hids, hedges]

theorem lacksInput_iff : g.LacksInput id ↔ ∃ i ∈ g.inputIds id, i ∉ g.ids := by
  simp only [LacksInput, mem_inputIds_iff]
  constructor
  · rintro ⟨e, he, ht, i, hs, hi⟩
    exact ⟨i, ⟨e, he, hs, ht⟩, hi⟩
  · rintro ⟨i, ⟨e, he, hs, ht⟩, hi⟩
    exact ⟨e, he, ht, i, hs, hi⟩

theorem idxOf_lt_of_transGen (hg : g.ids.Nodup) (hb : b ∈ g.schedule)
    (h : Relation.TransGen g.Link a b) : g.schedule.idxOf a < g.schedule.idxOf b := by
  induction h using Relation.TransGen.head_induction_on with
  | single hlink => exact idxOf_lt_of_mem_inputIds hg hb (link_iff.mp hlink).2.2
  | head hlink _ ih =>
    have hmem := List.idxOf_lt_length_iff.mp (ih.trans (List.idxOf_lt_length_of_mem hb))
    exact (idxOf_lt_of_mem_inputIds hg hmem (link_iff.mp hlink).2.2).trans ih

theorem mem_schedule_of_reflTransGen (hg : g.ids.Nodup) (hb : b ∈ g.schedule)
    (h : Relation.ReflTransGen g.Link a b) : a ∈ g.schedule := by
  rcases Relation.reflTransGen_iff_eq_or_transGen.mp h with rfl | h
  · exact hb
  · exact List.idxOf_lt_length_iff.mp
      ((idxOf_lt_of_transGen hg hb h).trans (List.idxOf_lt_length_of_mem hb))

/-- Where no cycle leads to a node, the edges above it are well-founded. -/
theorem wellFounded_above (h : ∀ a, Relation.ReflTransGen g.Link a id → ¬ g.Cyclic a) :
    WellFounded fun a b : {a // a ∈ g.ids ∧ Relation.ReflTransGen g.Link a id} ↦
      Relation.TransGen g.Link a.1 b.1 := by
  have hfinite : Finite {a // a ∈ g.ids ∧ Relation.ReflTransGen g.Link a id} :=
    (g.ids.finite_toSet.subset fun a ha ↦ ha.1).to_subtype
  have hirrefl : Std.Irrefl fun a b : {a // a ∈ g.ids ∧ Relation.ReflTransGen g.Link a id} ↦
      Relation.TransGen g.Link a.1 b.1 := ⟨fun a ↦ h a.1 a.2.2⟩
  have htrans : IsTrans {a // a ∈ g.ids ∧ Relation.ReflTransGen g.Link a id} fun a b ↦
      Relation.TransGen g.Link a.1 b.1 := ⟨fun _ _ _ ↦ Relation.TransGen.trans⟩
  exact Finite.wellFounded_of_trans_of_irrefl _

/-- **A node is built if and only if** no node above it, nor it itself, lies on a cycle or lacks an
input. -/
theorem mem_schedule_iff (hg : g.ids.Nodup) : id ∈ g.schedule ↔ id ∈ g.ids ∧
    ∀ a, Relation.ReflTransGen g.Link a id → ¬ g.Cyclic a ∧ ¬ g.LacksInput a := by
  constructor
  · refine fun hid ↦ ⟨mem_ids_of_mem_schedule hid, fun a ha ↦ ?_⟩
    have hmem := mem_schedule_of_reflTransGen hg hid ha
    refine ⟨fun hcycle ↦ (idxOf_lt_of_transGen hg hmem hcycle).ne rfl, fun hlacks ↦ ?_⟩
    obtain ⟨i, hi, hmissing⟩ := lacksInput_iff.mp hlacks
    exact hmissing (mem_ids_of_mem_schedule (mem_schedule_of_mem_inputIds hg hmem hi))
  · rintro ⟨hid, habove⟩
    have hwf := wellFounded_above fun a ha ↦ (habove a ha).1
    refine hwf.induction (C := fun a ↦ a.1 ∈ g.schedule) ⟨id, hid, .refl⟩ ?_
    rintro ⟨a, ha, hway⟩ ih
    refine mem_schedule_of_inputIds hg ha fun i hi ↦ ?_
    have hids : i ∈ g.ids := by
      by_contra hmissing
      exact (habove a hway).2 (lacksInput_iff.mpr ⟨i, hi, hmissing⟩)
    have hlink : g.Link i a := link_iff.mpr ⟨hids, ha, hi⟩
    exact ih ⟨i, hids, .head hlink hway⟩ (.single hlink)

/-! ## Building -/

theorem isSome_expr?_iff {out : BuildOutput} : (out.expr? id).isSome ↔ id ∈ out.order := by
  rw [BuildOutput.expr?, BuildOutput.order, Option.isSome_map, List.find?_isSome, List.mem_map]
  simp only [decide_eq_true_eq]

theorem mem_built_of_expr? {out : BuildOutput} {x : BuiltExpr} (h : out.expr? id = some x) :
    (id, x) ∈ out.built := by
  obtain ⟨⟨n, e⟩, hfind, rfl⟩ := Option.map_eq_some_iff.mp h
  have hn : n = id := by simpa using List.find?_some hfind
  exact hn ▸ List.mem_of_find?_eq_some hfind

/-- That a graph is built completely and in order. -/
structure BuiltInOrder (g : Graph) (out : BuildOutput) : Prop where
  /-- No node is built twice. -/
  nodup : out.order.Nodup
  /-- The built nodes are those that have an expression. -/
  expr : ∀ id, (out.expr? id).isSome ↔ id ∈ out.order
  /-- What is built, is all that has neither a cycle nor a missing input at it or above it. -/
  complete : ∀ id, id ∈ out.order ↔ id ∈ g.ids ∧
    ∀ a, Relation.ReflTransGen g.Link a id → ¬ g.Cyclic a ∧ ¬ g.LacksInput a
  /-- An edge from one node into a built one starts at a node built before. -/
  edges : ∀ id ∈ out.order, ∀ e ∈ g.edges, e.target = .node id → ∀ i, e.source = .node i →
    out.order.idxOf i < out.order.idxOf id
  /-- A placeholder is one for a node built before. -/
  placeholders : ∀ id x, out.expr? id = some x → ∀ p ∈ x.refs,
    out.order.idxOf p.node < out.order.idxOf id

/-- **Building is complete and in order**, for every document, clean or not, and every registry. -/
theorem build_builtInOrder (d : Document) (registry : Registry) :
    (ofDocument d).BuiltInOrder ((ofDocument d).build registry) := by
  have hg := nodup_ids_ofDocument d
  have hedges : ∀ id ∈ (ofDocument d).schedule, ∀ i ∈ (ofDocument d).inputIds id,
      (ofDocument d).schedule.idxOf i < (ofDocument d).schedule.idxOf id :=
    fun _ hid _ ↦ idxOf_lt_of_mem_inputIds hg hid
  constructor
  · rw [order_build]
    exact (schedule_readyOrder hg).nodup
  · exact fun _ ↦ isSome_expr?_iff
  · rw [order_build]
    exact fun _ ↦ mem_schedule_iff hg
  · rw [order_build]
    exact fun id hid e he ht i hs ↦ hedges id hid i (mem_inputIds_iff.mpr ⟨e, he, hs, ht⟩)
  · intro id x hx p hp
    have hid := isSome_expr?_iff.mp (Option.isSome_of_eq_some hx)
    rw [order_build] at hid ⊢
    refine hedges id hid p.node ?_
    obtain ⟨node, hnode, rfl⟩ := exists_node?_of_mem_built (mem_built_of_expr? hx)
    have hnodeId : node.id = id := by simpa using List.find?_some hnode
    exact hnodeId ▸ mem_inputIds_of_mem_refs hp

end MappingGraph.Graph
