import Mathlib.Data.List.Nodup
import MappingGraph.Proofs.Assembly

/-!
# The shared values of a compiled mapping

A reader of a compiled mapping evaluates the shared values from the first to the last and then the
mappings.  This works because of what is proved here about every compilation: a reference names
exactly one shared value, that value stands before all values that refer to it, and none is there
that no mapping needs.  `CompiledMapping.Orderly` collects this, and the last theorem of the file
says it of every compilation.

The pieces come from three sides.  `Resolver.refs_value` says which references are left in a value;
`Graph.mem_live_of_mapping` and `Graph.mem_live_of_shared` say that keeping the live ones loses no
value that is referred to; and references lead to nodes that were built earlier, so that the build
order puts each shared value behind those it refers to.
-/

set_option autoImplicit false

namespace MappingGraph

/-- The reference names the shared value. -/
def SharedRef.Names (ref : SharedRef) (s : SharedExpression) : Prop :=
  s.node = ref.node ∧ s.varName = ref.varName

namespace CompiledMapping

/-- The reference occurs in a mapping or in a shared value. -/
def Cites (out : CompiledMapping) (ref : SharedRef) : Prop :=
  (∃ m ∈ out.mappings, ref ∈ m.expression.refs) ∨ ∃ s ∈ out.shared, ref ∈ s.expression.refs

/-- The shared values that are met by following references from the mappings on. -/
inductive Live (out : CompiledMapping) : SharedExpression → Prop
  | ofMapping {m : FieldMapping} {ref : SharedRef} {s : SharedExpression}
      (hm : m ∈ out.mappings) (href : ref ∈ m.expression.refs) (hs : s ∈ out.shared)
      (hnames : ref.Names s) : Live out s
  | ofShared {t s : SharedExpression} {ref : SharedRef} (ht : Live out t)
      (href : ref ∈ t.expression.refs) (hs : s ∈ out.shared) (hnames : ref.Names s) : Live out s

/-- The shared values are closed under references, stand in an order in which they can be evaluated,
and are all needed. -/
structure Orderly (out : CompiledMapping) (order : List String) : Prop where
  /-- A reference names exactly one shared value. -/
  closed : ∀ ref, out.Cites ref → ∃! k : Nat, ∃ s, out.shared[k]? = some s ∧ ref.Names s
  /-- A shared value refers to those before it only. -/
  backward : ∀ (k : Nat) (s : SharedExpression), out.shared[k]? = some s →
    ∀ ref ∈ s.expression.refs, ∃ j < k, ∃ t, out.shared[j]? = some t ∧ ref.Names t
  live : ∀ s ∈ out.shared, out.Live s
  nodup : (out.shared.map (·.node)).Nodup
  inOrder : (out.shared.map (·.node)).Sublist order

end CompiledMapping

/-! ## Positions -/

/-- Where a list without repetitions has two elements in some order, its sublists have them in that
order. -/
theorem lt_of_idxOf_lt {l order : List String} {a b : String} {j k : Nat} (hsub : l.Sublist order)
    (hnodup : order.Nodup) (hj : l[j]? = some a) (hk : l[k]? = some b)
    (h : order.idxOf a < order.idxOf b) : j < k := by
  have horder : order.Pairwise fun x y ↦ order.idxOf x < order.idxOf y := by
    refine List.pairwise_iff_getElem.mpr fun i₁ i₂ h₁ h₂ hlt ↦ ?_
    rw [hnodup.idxOf_getElem, hnodup.idxOf_getElem]
    exact hlt
  obtain ⟨hj', rfl⟩ := List.getElem?_eq_some_iff.mp hj
  obtain ⟨hk', rfl⟩ := List.getElem?_eq_some_iff.mp hk
  rcases Nat.lt_trichotomy j k with hlt | rfl | hgt
  · exact hlt
  · exact absurd h (Nat.lt_irrefl _)
  · have hgt' := List.pairwise_iff_getElem.mp (horder.sublist hsub) k j hk' hj' hgt
    exact absurd h (Nat.lt_asymm hgt')

/-! ## Shared nodes and references -/

namespace Sharing

variable {sharing : Sharing} {id varName : String}

theorem exists_of_varName? (h : sharing.varName? id = some varName) :
    ∃ s ∈ sharing.nodes, s.node = id ∧ s.varName = varName := by
  obtain ⟨s, hs, rfl⟩ := Option.map_eq_some_iff.mp h
  refine ⟨s, List.mem_of_find?_eq_some hs, ?_, rfl⟩
  simpa using List.find?_some hs

/-- A shared node is found by its id. -/
theorem find?_eq_some_iff (hn : (sharing.nodes.map SharedNode.node).Nodup) {s : SharedNode} :
    sharing.find? id = some s ↔ s ∈ sharing.nodes ∧ s.node = id := by
  constructor
  · intro h
    exact ⟨List.mem_of_find?_eq_some h, by simpa using List.find?_some h⟩
  · rintro ⟨hs, rfl⟩
    cases hf : sharing.nodes.find? (·.node = s.node) with
    | none => exact absurd (decide_eq_true rfl) (List.find?_eq_none.mp hf s hs)
    | some t =>
      have hnode : t.node = s.node := by simpa using List.find?_some hf
      have ht : t = s := List.inj_on_of_nodup_map hn (List.mem_of_find?_eq_some hf) hs hnode
      rw [find?, hf, ht]

theorem varName?_of_mem (hn : (sharing.nodes.map SharedNode.node).Nodup) {s : SharedNode}
    (hs : s ∈ sharing.nodes) : sharing.varName? s.node = some s.varName := by
  rw [varName?, (find?_eq_some_iff hn).mpr ⟨hs, rfl⟩, Option.map_some]

end Sharing

namespace Graph

variable {g : Graph} {registry : Registry} {r : Resolver} {ref : SharedRef}
  {s t : SharedExpression} {m : FieldMapping} {mappings : List FieldMapping}
  {shared : List SharedExpression}

/-- A reference in a mapping was left in the use of a node that the target is fed from. -/
theorem refs_mappingsBy (hm : m ∈ g.mappingsBy r) (href : ref ∈ m.expression.refs) :
    ∃ e ∈ g.targetEdges, ∃ id, e.source = .node id ∧ ref ∈ (r.use id).refs := by
  obtain ⟨e, he, rfl⟩ := List.mem_map.mp hm
  refine ⟨e, he, ?_⟩
  cases hs : e.source with
  | source | target =>
    rw [Resolver.ofEdge, hs] at href
    exact absurd href List.not_mem_nil
  | node id =>
    rw [Resolver.ofEdge, hs] at href
    exact ⟨id, rfl, href⟩

theorem varName?_of_mapping (hl : LatestFirst r.latestFirst) (hm : m ∈ g.mappingsBy r)
    (href : ref ∈ m.expression.refs) : r.sharing.varName? ref.node = some ref.varName := by
  obtain ⟨e, _, id, _, hid⟩ := refs_mappingsBy hm href
  exact (Resolver.refs_use hl hid).1

theorem varName?_of_shared (hl : LatestFirst r.latestFirst) (hs : s ∈ g.sharedBy registry r)
    (href : ref ∈ s.expression.refs) : r.sharing.varName? ref.node = some ref.varName := by
  obtain ⟨n, _, rfl⟩ := List.mem_map.mp hs
  exact (Resolver.refs_value hl href).1

theorem exists_sharedBy (h : r.sharing.varName? ref.node = some ref.varName) :
    ∃ s ∈ g.sharedBy registry r, ref.Names s := by
  obtain ⟨n, hn, hnode, hname⟩ := Sharing.exists_of_varName? h
  exact ⟨g.sharedOf registry r n, List.mem_map_of_mem hn, hnode, hname⟩

/-- A reference names every shared value of its node. -/
theorem names_of_node_eq (hn : (r.sharing.nodes.map SharedNode.node).Nodup)
    (h : r.sharing.varName? ref.node = some ref.varName) (hs : s ∈ g.sharedBy registry r)
    (hnode : s.node = ref.node) : ref.Names s := by
  obtain ⟨n, hmem, rfl⟩ := List.mem_map.mp hs
  refine ⟨hnode, Option.some.inj ((Sharing.varName?_of_mem hn hmem).symm.trans ?_)⟩
  rw [← h, ← hnode]
  rfl

theorem map_node_sharedBy (g : Graph) (registry : Registry) (r : Resolver) :
    (g.sharedBy registry r).map (·.node) = r.sharing.nodes.map SharedNode.node := by
  rw [sharedBy, List.map_map]
  rfl

theorem map_varName_sharedBy (g : Graph) (registry : Registry) (r : Resolver) :
    (g.sharedBy registry r).map (·.varName) = r.sharing.nodes.map SharedNode.varName := by
  rw [sharedBy, List.map_map]
  rfl

/-! ## What is kept -/

/-- What a mapping refers to is kept. -/
theorem mem_live_of_mapping (hs : s ∈ shared) (hm : m ∈ mappings) (href : ref ∈ m.expression.refs)
    (hnode : s.node = ref.node) : s.node ∈ live mappings shared := by
  refine mem_gather_iff.mpr (.start (List.mem_map_of_mem hs) ?_)
  exact List.mem_flatMap.mpr ⟨m, hm, List.mem_map.mpr ⟨ref, href, hnode.symm⟩⟩

/-- What a shared value that is kept refers to is kept. -/
theorem mem_live_of_shared (hs : s ∈ shared) (ht : t ∈ shared) (hlive : t.node ∈ live mappings shared)
    (href : ref ∈ t.expression.refs) (hnode : s.node = ref.node) :
    s.node ∈ live mappings shared := by
  refine mem_gather_iff.mpr (.step (mem_gather_iff.mp hlive) (List.mem_map_of_mem hs) ?_)
  refine List.mem_flatMap.mpr ⟨t, List.mem_filter.mpr ⟨ht, decide_eq_true rfl⟩, ?_⟩
  exact List.mem_map.mpr ⟨ref, href, hnode.symm⟩

/-- Induction over what is kept: from the references of the mappings on, through the shared values
that are kept. -/
@[elab_as_elim]
theorem live_ind {P : String → Prop} {id : String} (h : id ∈ live mappings shared)
    (mapping : ∀ m ∈ mappings, ∀ ref ∈ m.expression.refs, P ref.node)
    (shared : ∀ t ∈ shared, t.node ∈ live mappings shared → P t.node →
      ∀ ref ∈ t.expression.refs, P ref.node) : P id := by
  have hreached := mem_gather_iff.mp h
  clear h
  induction hreached with
  | start _ hstart =>
    obtain ⟨m, hm, hstart⟩ := List.mem_flatMap.mp hstart
    obtain ⟨ref, href, rfl⟩ := List.mem_map.mp hstart
    exact mapping m hm ref href
  | step ha _ hnext ih =>
    obtain ⟨t, hfilter, hnext⟩ := List.mem_flatMap.mp hnext
    obtain ⟨ht, hta⟩ := List.mem_filter.mp hfilter
    obtain ⟨ref, href, rfl⟩ := List.mem_map.mp hnext
    rw [← of_decide_eq_true hta] at ha ih
    exact shared t ht (mem_gather_iff.mpr ha) ih ref href

/-- **Only what is needed is kept.** -/
theorem live_of_mem_live {out : CompiledMapping} (hl : LatestFirst r.latestFirst)
    (hn : (r.sharing.nodes.map SharedNode.node).Nodup) (hmappings : out.mappings = g.mappingsBy r)
    (hshared : out.shared = g.liveSharedBy registry r) {id : String}
    (h : id ∈ live (g.mappingsBy r) (g.sharedBy registry r)) :
    ∀ s ∈ g.sharedBy registry r, s.node = id → out.Live s := by
  have hkept : ∀ s ∈ g.sharedBy registry r,
      s.node ∈ live (g.mappingsBy r) (g.sharedBy registry r) → s ∈ out.shared := fun s hs hlive ↦ by
    rw [hshared]
    exact List.mem_filter.mpr ⟨hs, decide_eq_true hlive⟩
  refine live_ind h (fun m hm ref href s hs hid ↦ ?_) fun t ht htlive ih ref href s hs hid ↦ ?_
  · exact .ofMapping (hmappings ▸ hm) href (hkept s hs (mem_live_of_mapping hs hm href hid))
      (names_of_node_eq hn (varName?_of_mapping hl hm href) hs hid)
  · exact .ofShared (ih t ht rfl) href (hkept s hs (mem_live_of_shared hs ht htlive href hid))
      (names_of_node_eq hn (varName?_of_shared hl ht href) hs hid)

end Graph

/-! ## A whole compilation -/

namespace Compiler

variable (c : Compiler) (d : Document)

theorem nodup_order : (c.stages d).output.order.Nodup := by
  have h := (c.resolver_latestFirst d).nodup
  rw [resolver, Resolver.of, List.map_reverse, List.nodup_reverse] at h
  exact h

theorem nodup_sharing : ((c.resolver d).sharing.nodes.map SharedNode.node).Nodup :=
  (c.sharing_sublist_order d).nodup (c.nodup_order d)

/-- The shared values stand in the build order. -/
theorem shared_sublist_order :
    ((c.compile d).output.shared.map (·.node)).Sublist (c.stages d).output.order := by
  rw [shared_compile, Graph.liveSharedBy]
  refine (List.filter_sublist.map _).trans ?_
  rw [Graph.map_node_sharedBy]
  exact c.sharing_sublist_order d

theorem nodup_shared : ((c.compile d).output.shared.map (·.node)).Nodup :=
  (c.shared_sublist_order d).nodup (c.nodup_order d)

/-- No two shared values have one name. -/
theorem nodup_varName : ((c.compile d).output.shared.map (·.varName)).Nodup := by
  rw [shared_compile, Graph.liveSharedBy]
  refine (List.filter_sublist.map _).nodup ?_
  rw [Graph.map_varName_sharedBy]
  exact Graph.sharing_varName_nodup _ _ _ _

theorem mem_shared_iff {s : SharedExpression} :
    s ∈ (c.compile d).output.shared ↔
      s ∈ (c.stages d).graph.sharedBy c.registry (c.resolver d) ∧
        s.node ∈ Graph.live ((c.stages d).graph.mappingsBy (c.resolver d))
          ((c.stages d).graph.sharedBy c.registry (c.resolver d)) := by
  rw [shared_compile, Graph.liveSharedBy, List.mem_filter, decide_eq_true_iff]

/-- What is referred to is there. -/
theorem exists_shared_of_cites {ref : SharedRef} (h : (c.compile d).output.Cites ref) :
    ∃ s ∈ (c.compile d).output.shared, ref.Names s := by
  rcases h with ⟨m, hm, href⟩ | ⟨t, ht, href⟩
  · rw [mappings_compile] at hm
    obtain ⟨s, hs, hnames⟩ := Graph.exists_sharedBy
      (Graph.varName?_of_mapping (c.resolver_latestFirst d) hm href)
    exact ⟨s, (c.mem_shared_iff d).mpr ⟨hs, Graph.mem_live_of_mapping hs hm href hnames.1⟩, hnames⟩
  · obtain ⟨ht, hlive⟩ := (c.mem_shared_iff d).mp ht
    obtain ⟨s, hs, hnames⟩ := Graph.exists_sharedBy
      (Graph.varName?_of_shared (c.resolver_latestFirst d) ht href)
    exact ⟨s, (c.mem_shared_iff d).mpr
      ⟨hs, Graph.mem_live_of_shared hs ht hlive href hnames.1⟩, hnames⟩

/-- A reference in a shared value leads to a node that was built earlier. -/
theorem idxOf_lt_of_mem_refs {s : SharedExpression} (hs : s ∈ (c.compile d).output.shared)
    {ref : SharedRef} (href : ref ∈ s.expression.refs) :
    (c.stages d).output.order.idxOf ref.node < (c.stages d).output.order.idxOf s.node := by
  have hl := c.resolver_latestFirst d
  have horder : ((c.resolver d).latestFirst.map Prod.fst).reverse = (c.stages d).output.order := by
    rw [resolver, Resolver.of, List.map_reverse, List.reverse_reverse]
    rfl
  obtain ⟨n, _, rfl⟩ := List.mem_map.mp ((c.mem_shared_iff d).mp hs).1
  rw [← horder]
  exact hl.idxOf_lt_of_transGen (Resolver.refs_value hl href).2

/-- A shared value refers to those before it only. -/
theorem exists_earlier_of_mem_refs {k : Nat} {s : SharedExpression}
    (hk : (c.compile d).output.shared[k]? = some s) {ref : SharedRef}
    (href : ref ∈ s.expression.refs) :
    ∃ j < k, ∃ t, (c.compile d).output.shared[j]? = some t ∧ ref.Names t := by
  have hs := List.mem_of_getElem? hk
  obtain ⟨t, ht, hnames⟩ := c.exists_shared_of_cites d (.inr ⟨s, hs, href⟩)
  obtain ⟨j, hj⟩ := List.mem_iff_getElem?.mp ht
  refine ⟨j, ?_, t, hj, hnames⟩
  refine lt_of_idxOf_lt (c.shared_sublist_order d) (c.nodup_order d) ?_ ?_
    (hnames.1 ▸ c.idxOf_lt_of_mem_refs d hs href)
  · rw [List.getElem?_map, hj, Option.map_some]
  · rw [List.getElem?_map, hk, Option.map_some]

/-- **The shared values of a compilation are closed, in order, and needed.** -/
theorem compile_orderly :
    (c.compile d).output.Orderly (c.stages d).output.order where
  closed ref href := by
    obtain ⟨s, hs, hnames⟩ := c.exists_shared_of_cites d href
    obtain ⟨k, hk⟩ := List.mem_iff_getElem?.mp hs
    refine ⟨k, ⟨s, hk, hnames⟩, ?_⟩
    rintro j ⟨t, hj, htnames⟩
    refine (List.getElem?_inj ?_ (c.nodup_shared d)).mp ?_
    · rw [List.length_map]
      exact (List.getElem?_eq_some_iff.mp hj).1
    · rw [List.getElem?_map, List.getElem?_map, hj, hk, Option.map_some, Option.map_some,
        hnames.1, htnames.1]
  backward k s hk ref href := c.exists_earlier_of_mem_refs d hk href
  live s hs := by
    have hkept := (c.mem_shared_iff d).mp hs
    exact Graph.live_of_mem_live (c.resolver_latestFirst d) (c.nodup_sharing d)
      (c.mappings_compile d) (c.shared_compile d) hkept.2 s hkept.1 rfl
  nodup := c.nodup_shared d
  inOrder := c.shared_sublist_order d

end Compiler

end MappingGraph
