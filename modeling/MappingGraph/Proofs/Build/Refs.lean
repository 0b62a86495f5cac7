import Mathlib.Logic.Relation
import MappingGraph.Build.Output
import MappingGraph.Proofs.Build.Inputs
import MappingGraph.Proofs.Build.Made
import MappingGraph.Proofs.Build.Schedule

/-!
# What a built expression refers to

An operation makes its expression of its inputs and of literals (`Rule.build_made`).  So every
placeholder of the expression of a node is that of an edge into the node
(`Graph.mem_inputIds_of_mem_refs`).

A graph builds in the order of its schedule, hence every placeholder leads to a node that was built
earlier.  `LatestFirst` states this of the built nodes seen from the end, which is how placeholders
are resolved, and `Graph.build_latestFirst` is the main result.
-/

set_option autoImplicit false

namespace MappingGraph

namespace Graph

variable {g : Graph} {registry : Registry} {id : String} {done order : List String}

/-- **A placeholder is that of an edge** into the node. -/
theorem mem_inputIds_of_mem_refs {node : Node} {p : Placeholder}
    (h : p ∈ (g.exprOf registry node).refs) : p.node ∈ g.inputIds node.id := by
  obtain ⟨x, hx, hp⟩ := Node.exists_input_of_mem_refs h
  obtain ⟨e, he, rfl⟩ := List.mem_map.mp hx
  rw [inputIds, List.mem_filterMap]
  refine ⟨e, Inputs.mem_ordered_iff.mp he, ?_⟩
  rw [Inputs.ofEdge] at hp
  split at hp
  · exact absurd hp List.not_mem_nil
  · next i hs =>
    rw [Expr.refs, List.mem_singleton] at hp
    rw [hs, hp]
    rfl
  · exact absurd hp List.not_mem_nil

/-- The node that is looked up by an id has this id. -/
theorem id_of_node? {node : Node} (h : g.node? id = some node) : node.id = id := by
  simpa using List.find?_some h

theorem exists_node?_of_mem_ids (h : id ∈ g.ids) :
    ∃ node, g.node? id = some node ∧ node.id = id := by
  obtain ⟨node, hnode, rfl⟩ := List.mem_map.mp h
  cases hf : g.node? node.id with
  | none => exact absurd (decide_eq_true rfl) (List.find?_eq_none.mp hf node hnode)
  | some n => exact ⟨n, rfl, id_of_node? hf⟩

/-- Where no id names two nodes, each is found by its id. -/
theorem node?_of_mem (hg : g.ids.Nodup) {n : Node} (h : n ∈ g.nodes) :
    g.node? n.id = some n := by
  obtain ⟨m, hm, hid⟩ := exists_node?_of_mem_ids (List.mem_map_of_mem (f := (·.id)) h)
  rw [hm, List.inj_on_of_nodup_map hg (List.mem_of_find?_eq_some hm) h hid]

theorem node?_eq_some_iff (hg : g.ids.Nodup) {n : Node} :
    g.node? id = some n ↔ n ∈ g.nodes ∧ n.id = id := by
  constructor
  · intro hn
    exact ⟨List.mem_of_find?_eq_some hn, id_of_node? hn⟩
  · rintro ⟨hn, rfl⟩
    exact node?_of_mem hg hn

/-- A built node is one of the graph, with the expression that it makes of its inputs. -/
theorem exists_node?_of_mem_built {e : BuiltExpr} (h : (id, e) ∈ (g.build registry).built) :
    ∃ node, g.node? id = some node ∧ e = g.exprOf registry node := by
  obtain ⟨node, hnode, heq⟩ := List.mem_map.mp h
  obtain ⟨rfl, rfl⟩ := Prod.mk.inj heq
  obtain ⟨i, _, hi⟩ := List.mem_filterMap.mp hnode
  exact ⟨node, id_of_node? hi ▸ hi, rfl⟩

/-- The built nodes are those of the schedule, in its order. -/
theorem order_build (g : Graph) (registry : Registry) : (g.build registry).order = g.schedule := by
  rw [BuildOutput.order, build, List.map_map]
  have hids : ∀ id ∈ g.schedule, id ∈ g.ids := fun _ ↦ mem_ids_of_mem_schedule
  revert hids
  generalize g.schedule = order
  intro hids
  induction order with
  | nil => rfl
  | cons id ids ih =>
    obtain ⟨node, hnode, hid⟩ := exists_node?_of_mem_ids (hids id List.mem_cons_self)
    rw [List.filterMap_cons_some hnode, List.map_cons,
      ih fun i hi ↦ hids i (List.mem_cons_of_mem _ hi), Function.comp_apply, hid]

end Graph

/-! ## Built nodes, the latest first -/

/-- The expression of one built node has a placeholder for the other node. -/
def Uses (l : List (String × BuiltExpr)) (n other : String) : Prop :=
  ∃ e, (n, e) ∈ l ∧ ∃ p ∈ e.refs, p.node = other

/-- Built nodes with the latest first: each has an id of its own and refers to earlier nodes
only. -/
def LatestFirst : List (String × BuiltExpr) → Prop
  | [] => True
  | (n, e) :: earlier =>
    n ∉ earlier.map Prod.fst ∧ (∀ p ∈ e.refs, p.node ∈ earlier.map Prod.fst) ∧ LatestFirst earlier

namespace LatestFirst

variable {l : List (String × BuiltExpr)} {n : String} {e : BuiltExpr}

/-- What a built node refers to was built. -/
theorem refs_mem (hl : LatestFirst l) (h : (n, e) ∈ l) {p : Placeholder} (hp : p ∈ e.refs) :
    p.node ∈ l.map Prod.fst := by
  induction l with
  | nil => exact absurd h List.not_mem_nil
  | cons m l ih =>
    rcases List.mem_cons.mp h with rfl | hmem
    · exact List.mem_cons_of_mem _ (hl.2.1 p hp)
    · exact List.mem_cons_of_mem _ (ih hl.2.2 hmem)

theorem nodup (hl : LatestFirst l) : (l.map Prod.fst).Nodup := by
  induction l with
  | nil => exact List.nodup_nil
  | cons m l ih => exact List.nodup_cons.mpr ⟨hl.1, ih hl.2.2⟩

/-- Induction along the build order: what holds of a node whenever it holds of all that the node
refers to, holds of every built node. -/
@[elab_as_elim]
theorem ind {P : String → Prop} (hl : LatestFirst l) (hn : n ∈ l.map Prod.fst)
    (step : ∀ n e, (n, e) ∈ l → (∀ p ∈ e.refs, P p.node) → P n) : P n := by
  induction l generalizing n with
  | nil => exact absurd hn List.not_mem_nil
  | cons m l ih =>
    obtain ⟨n', e⟩ := m
    have hearlier : ∀ i ∈ l.map Prod.fst, P i := fun i hi ↦
      ih hl.2.2 hi fun n e h ↦ step n e (List.mem_cons_of_mem _ h)
    rcases List.mem_cons.mp hn with rfl | hn
    · exact step _ e List.mem_cons_self fun p hp ↦ hearlier _ (hl.2.1 p hp)
    · exact hearlier n hn

/-- What a built node refers to was built before it. -/
theorem refs_before (hl : LatestFirst l) {earlier : List (String × BuiltExpr)}
    (h : (n, e) :: earlier <:+ l) {p : Placeholder} (hp : p ∈ e.refs) :
    p.node ∈ earlier.map Prod.fst := by
  obtain ⟨later, rfl⟩ := h
  induction later with
  | nil => exact hl.2.1 p hp
  | cons m later ih => exact ih hl.2.2

/-- A node is built after what it refers to. -/
theorem idxOf_lt_of_uses (hl : LatestFirst l) {other : String} (h : Uses l n other) :
    (l.map Prod.fst).reverse.idxOf other < (l.map Prod.fst).reverse.idxOf n := by
  obtain ⟨e, hmem, p, hp, rfl⟩ := h
  induction l with
  | nil => exact absurd hmem List.not_mem_nil
  | cons m l ih =>
    obtain ⟨hnew, hrefs, hl⟩ := hl
    rw [List.map_cons, List.reverse_cons]
    rcases List.mem_cons.mp hmem with rfl | hmem
    · have hother : p.node ∈ (l.map Prod.fst).reverse := List.mem_reverse.mpr (hrefs p hp)
      have hn : n ∉ (l.map Prod.fst).reverse := fun h ↦ hnew (List.mem_reverse.mp h)
      rw [List.idxOf_append_of_mem hother, List.idxOf_append_of_notMem hn]
      exact Nat.lt_add_right _ (List.idxOf_lt_length_of_mem hother)
    · have hother : p.node ∈ (l.map Prod.fst).reverse := List.mem_reverse.mpr (hl.refs_mem hmem hp)
      have hn : n ∈ (l.map Prod.fst).reverse := List.mem_reverse.mpr (List.mem_map_of_mem hmem)
      rw [List.idxOf_append_of_mem hother, List.idxOf_append_of_mem hn]
      exact ih hl hmem

/-- A node is built after all that it depends on. -/
theorem idxOf_lt_of_transGen (hl : LatestFirst l) {other : String}
    (h : Relation.TransGen (Uses l) n other) :
    (l.map Prod.fst).reverse.idxOf other < (l.map Prod.fst).reverse.idxOf n := by
  induction h with
  | single huses => exact hl.idxOf_lt_of_uses huses
  | tail _ huses ih => exact Nat.lt_trans (hl.idxOf_lt_of_uses huses) ih

end LatestFirst

namespace Graph

variable {g : Graph} {registry : Registry} {done order : List String}

theorem latestFirst_of_readyOrder {earlier : List (String × BuiltExpr)}
    (h : g.ReadyOrder done order) (hids : ∀ id ∈ order, id ∈ g.ids) (hl : LatestFirst earlier)
    (hd : ∀ id, id ∈ earlier.map Prod.fst ↔ id ∈ done) :
    LatestFirst (((order.filterMap g.node?).map fun node ↦
      (node.id, g.exprOf registry node)).reverse ++ earlier) := by
  induction order generalizing done earlier with
  | nil => exact hl
  | cons id order ih =>
    obtain ⟨hnew, hready, hrest⟩ := h
    obtain ⟨node, hnode, hid⟩ := exists_node?_of_mem_ids (hids id List.mem_cons_self)
    rw [List.filterMap_cons_some hnode, List.map_cons, List.reverse_cons, List.append_assoc,
      List.singleton_append]
    refine ih hrest (fun i hi ↦ hids i (List.mem_cons_of_mem _ hi)) ⟨?_, fun p hp ↦ ?_, hl⟩ ?_
    · rw [hid, hd]
      exact hnew
    · rw [hd]
      exact hready _ (hid ▸ mem_inputIds_of_mem_refs hp)
    · intro i
      rw [List.map_cons, List.mem_cons, hd, hid, List.mem_append, List.mem_singleton, or_comm]

/-- **Every placeholder leads to a node that was built earlier.** -/
theorem build_latestFirst (hg : g.ids.Nodup) (registry : Registry) :
    LatestFirst (g.build registry).built.reverse := by
  rw [← List.append_nil (g.build registry).built.reverse]
  exact latestFirst_of_readyOrder (schedule_readyOrder hg) (fun _ ↦ mem_ids_of_mem_schedule)
    trivial fun _ ↦ Iff.rfl

end Graph

end MappingGraph
