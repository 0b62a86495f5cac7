import MappingGraph.Build.Schedule
import MappingGraph.Proofs.Repeats

/-!
# The schedule is in order

`Graph.ReadyOrder done order` says that the nodes of `order` can be built one after the other when
those of `done` are there: each is new and feeds on nodes that came before it.  The schedule is such
an order from nothing (`Graph.schedule_readyOrder`), and it has nodes of the graph only
(`Graph.mem_ids_of_mem_schedule`).

The reason that no node is queued twice: whatever is queued has all it feeds on among the built.  A
node released by `id` feeds on `id`, so it was not ready before.
-/

set_option autoImplicit false

namespace MappingGraph

@[simp] theorem Endpoint.node?_eq_some_iff {endpoint : Endpoint} {id : String} :
    endpoint.node? = some id ↔ endpoint = .node id := by
  cases endpoint <;> simp [node?]

namespace Graph

variable {g : Graph} {done order queue built : List String} {id other : String}

/-! ## Edges seen from their ends -/

theorem mem_inputIds_iff :
    other ∈ g.inputIds id ↔ ∃ e ∈ g.edges, e.source = .node other ∧ e.target = .node id := by
  simp only [inputIds, incoming, List.mem_filterMap, List.mem_filter, decide_eq_true_eq,
    Endpoint.node?_eq_some_iff, and_assoc]
  exact exists_congr fun e ↦ and_congr_right fun _ ↦ and_comm

theorem mem_inputIds_of_mem_consumers (h : other ∈ g.consumers id) : id ∈ g.inputIds other := by
  simp only [consumers, outgoing, List.mem_filter, List.mem_filterMap, decide_eq_true_eq,
    Endpoint.node?_eq_some_iff] at h
  obtain ⟨⟨e, ⟨he, hs⟩, ht⟩, _⟩ := h
  exact mem_inputIds_iff.mpr ⟨e, he, hs, ht⟩

theorem mem_ids_iff : id ∈ g.ids ↔ g.hasNode id = true := by
  simp [ids, hasNode, List.mem_map, List.any_eq_true]

theorem mem_ids_of_mem_consumers (h : other ∈ g.consumers id) : other ∈ g.ids :=
  mem_ids_iff.mpr (List.mem_filter.mp h).2

/-! ## Ready orders -/

/-- The nodes of `order` can be built in turn when those of `done` are there. -/
def ReadyOrder (g : Graph) : (done order : List String) → Prop
  | _, [] => True
  | done, id :: order =>
    id ∉ done ∧ (∀ i ∈ g.inputIds id, i ∈ done) ∧ ReadyOrder g (done ++ [id]) order

namespace ReadyOrder

theorem not_mem_done (h : g.ReadyOrder done order) (hid : id ∈ order) : id ∉ done := by
  induction order generalizing done with
  | nil => exact absurd hid List.not_mem_nil
  | cons a order ih =>
    obtain ⟨hnew, _, hrest⟩ := h
    rcases List.mem_cons.mp hid with rfl | hid
    · exact hnew
    · exact fun hd ↦ ih hrest hid (List.mem_append_left _ hd)

theorem nodup (h : g.ReadyOrder done order) : order.Nodup := by
  induction order generalizing done with
  | nil => exact List.nodup_nil
  | cons a order ih =>
    obtain ⟨_, _, hrest⟩ := h
    refine List.nodup_cons.mpr ⟨fun ha ↦ ?_, ih hrest⟩
    exact hrest.not_mem_done ha (List.mem_append_right _ (List.mem_singleton_self a))

end ReadyOrder

theorem isReady_iff : g.isReady built id = true ↔ ∀ i ∈ g.inputIds id, i ∈ built := by
  simp [isReady, List.all_eq_true]

theorem mem_released_iff :
    other ∈ g.released built id ↔ other ∈ g.consumers id ∧ ∀ i ∈ g.inputIds other, i ∈ built := by
  rw [released, List.mem_filter, List.mem_reverse, List.mem_eraseDups, isReady_iff]

theorem nodup_released : (g.released built id).Nodup :=
  (List.nodup_reverse.mpr (nodup_eraseDups _)).filter _

/-- What holds of the queue and of what was built, before every step. -/
structure Waiting (g : Graph) (queue built : List String) : Prop where
  nodup : queue.Nodup
  new : ∀ a ∈ queue, a ∉ built
  ready : ∀ a ∈ queue, ∀ i ∈ g.inputIds a, i ∈ built
  /-- Whatever was built has its inputs among the built. -/
  closed : ∀ a ∈ built, ∀ i ∈ g.inputIds a, i ∈ built

namespace Waiting

/-- A node released by `id` feeds on `id`, so it was neither queued nor built before. -/
theorem released_new (h : g.Waiting (id :: queue) built)
    (hr : other ∈ g.released (built ++ [id]) id) : other ∉ queue ∧ other ∉ built ++ [id] := by
  have hid : id ∉ built := h.new id List.mem_cons_self
  have hin := mem_inputIds_of_mem_consumers (mem_released_iff.mp hr).1
  refine ⟨fun hq ↦ hid (h.ready other (List.mem_cons_of_mem _ hq) id hin), fun hb ↦ hid ?_⟩
  rcases List.mem_append.mp hb with hb | hb
  · exact h.closed other hb id hin
  · rw [List.mem_singleton] at hb
    subst hb
    exact h.ready other List.mem_cons_self other hin

theorem step (h : g.Waiting (id :: queue) built) :
    g.Waiting (queue ++ g.released (built ++ [id]) id) (built ++ [id]) := by
  obtain ⟨hid, hq⟩ := List.nodup_cons.mp h.nodup
  refine ⟨?_, fun a ha ↦ ?_, fun a ha i hi ↦ ?_, fun a ha i hi ↦ List.mem_append_left _ ?_⟩
  · exact List.nodup_append'.mpr ⟨hq, nodup_released, fun a hq hr ↦ (h.released_new hr).1 hq⟩
  · rcases List.mem_append.mp ha with hq | hr
    · rw [List.mem_append, List.mem_singleton, not_or]
      exact ⟨h.new a (List.mem_cons_of_mem _ hq), fun heq ↦ hid (heq ▸ hq)⟩
    · exact (h.released_new hr).2
  · rcases List.mem_append.mp ha with hq | hr
    · exact List.mem_append_left _ (h.ready a (List.mem_cons_of_mem _ hq) i hi)
    · exact (mem_released_iff.mp hr).2 i hi
  · rcases List.mem_append.mp ha with hb | hb
    · exact h.closed a hb i hi
    · rw [List.mem_singleton] at hb
      subst hb
      exact h.ready a List.mem_cons_self i hi

end Waiting

/-- What the queue builds is in order. -/
theorem scheduleFrom_readyOrder (steps : Nat) (h : g.Waiting queue built) :
    ∃ order, g.scheduleFrom steps queue built = built ++ order ∧ g.ReadyOrder built order := by
  induction steps generalizing queue built with
  | zero => exact ⟨[], by rw [scheduleFrom, List.append_nil], trivial⟩
  | succ steps ih =>
    cases queue with
    | nil => exact ⟨[], by rw [scheduleFrom, List.append_nil], trivial⟩
    | cons id queue =>
      obtain ⟨order, hrun, horder⟩ := ih h.step
      refine ⟨id :: order, ?_, h.new id List.mem_cons_self, h.ready id List.mem_cons_self, horder⟩
      rw [scheduleFrom, hrun, List.append_assoc, List.singleton_append]

theorem mem_ids_of_mem_scheduleFrom (steps : Nat) (hq : ∀ a ∈ queue, a ∈ g.ids)
    (hb : ∀ a ∈ built, a ∈ g.ids) : ∀ a ∈ g.scheduleFrom steps queue built, a ∈ g.ids := by
  induction steps generalizing queue built with
  | zero => exact hb
  | succ steps ih =>
    cases queue with
    | nil => exact hb
    | cons id queue =>
      rw [scheduleFrom]
      refine ih (fun a ha ↦ ?_) fun a ha ↦ ?_
      · rcases List.mem_append.mp ha with ha | ha
        · exact hq a (List.mem_cons_of_mem _ ha)
        · exact mem_ids_of_mem_consumers (mem_released_iff.mp ha).1
      · rcases List.mem_append.mp ha with ha | ha
        · exact hb a ha
        · exact hq a (List.mem_singleton.mp ha ▸ List.mem_cons_self)

/-! ## The schedule -/

/-- A node at the end is taken if its id is new. -/
theorem firstById_concat (ns : List Node) (n : Node) :
    firstById (ns ++ [n]) =
      if n.id ∈ ns.map Node.id then firstById ns else firstById ns ++ [n] := by
  induction ns with
  | nil => rfl
  | cons m ns ih =>
    rw [List.cons_append, firstById, firstById, ih]
    by_cases hm : n.id = m.id
    · split <;> simp [hm]
    · by_cases hn : n.id ∈ ns.map Node.id <;> simp [hn, hm]

/-- The ids are those of the nodes, each where it appears first. -/
theorem map_id_firstById (ns : List Node) :
    (firstById ns).map Node.id = (ns.map Node.id).eraseDups := by
  induction ns using List.reverseRecOn with
  | nil => rfl
  | append_singleton ns n ih =>
    rw [firstById_concat, List.map_append, List.map_singleton, eraseDups_concat, ← ih]
    split <;> simp

/-- The ids of a graph without repetition, as `Graph.ofDocument` makes them. -/
theorem nodup_ids_ofDocument (d : Document) : (ofDocument d).ids.Nodup := by
  rw [ids, ofDocument, map_id_firstById]
  exact nodup_eraseDups _

theorem waiting_start (hg : g.ids.Nodup) : g.Waiting (g.ids.filter (g.isReady [])) [] :=
  ⟨hg.filter _, fun _ _ ↦ List.not_mem_nil,
    fun _ ha ↦ isReady_iff.mp (List.mem_filter.mp ha).2, fun _ h ↦ absurd h List.not_mem_nil⟩

/-- **The schedule is a ready order**, provided that no id names two nodes. -/
theorem schedule_readyOrder (hg : g.ids.Nodup) : g.ReadyOrder [] g.schedule := by
  obtain ⟨order, hrun, horder⟩ := scheduleFrom_readyOrder g.nodes.length (waiting_start hg)
  rw [schedule, hrun, List.nil_append]
  exact horder

theorem mem_ids_of_mem_schedule (h : id ∈ g.schedule) : id ∈ g.ids :=
  mem_ids_of_mem_scheduleFrom _ (fun _ ha ↦ (List.mem_filter.mp ha).1)
    (fun _ ha ↦ absurd ha List.not_mem_nil) id h

end Graph

end MappingGraph
