import MappingGraph.Proofs.Expansion
import MappingGraph.Proofs.Expr.Calls
import MappingGraph.Proofs.Operation.Registry

/-!
# Which values are shared, and what they depend on

A value is shared if its node was selected and is needed.  `Compiler.Hoists` says this without the
resolver: the node is shareable, and a field of the target depends on it.  That the shared values of
a compilation are just these nodes is `Compiler.exists_shared_iff`.

Sharing makes one evaluation of several, so it should spare operations that are impure.  What is
checked is the kind of the node itself.  The expression that is shared, though, has the expressions
of its inputs inside, and theirs.  `Compiler.HoistsPurely` says what sharing should keep, and the
last theorems of the file tell when it does and that it does not always do: a node that feeds on the
clock and is used twice is shared, and with it the clock is read once.
-/

set_option autoImplicit false

namespace MappingGraph

/-! ## What is live -/

namespace Resolver

variable {r : Resolver}

/-- A set of nodes that has the references of a use, and with a shared node the references of its
value, has every shared node that the use depends on.  The induction is on the way there: at a
shared node it goes on in the set, at any other in the use. -/
theorem mem_of_way {kept : List String} {start id : String} (hl : LatestFirst r.latestFirst)
    (hclosed : ∀ n ∈ kept, ∀ ref ∈ (r.value n).refs, ref.node ∈ kept)
    (hid : id ∈ r.sharing.nodes.map SharedNode.node)
    (hway : Relation.ReflTransGen (Uses r.latestFirst) start id)
    (hstart : ∀ ref ∈ (r.use start).refs, ref.node ∈ kept) : id ∈ kept := by
  induction hway using Relation.ReflTransGen.head_induction_on with
  | refl =>
    cases hv : r.sharing.varName? id with
    | some varName =>
      rw [use_of_varName? hv] at hstart
      exact hstart ⟨id, varName⟩ (List.mem_singleton_self _)
    | none =>
      obtain ⟨s, hs, hnode⟩ := List.mem_map.mp hid
      rw [Sharing.varName?, Option.map_eq_none_iff] at hv
      exact absurd (decide_eq_true hnode) (List.find?_eq_none.mp hv s hs)
  | @head a b huses _ ih =>
    have hvalue : ∀ ref ∈ (r.use b).refs, ref ∈ (r.value a).refs := fun ref href ↦ by
      obtain ⟨e, hmem, p, hp, rfl⟩ := huses
      rw [value_eq hl hmem, Expr.mem_refs_mapRefs]
      exact ⟨p, hp, href⟩
    refine ih fun ref href ↦ ?_
    cases hv : r.sharing.varName? a with
    | none => exact hstart ref (by rw [use_of_varName?_eq_none hv]; exact hvalue ref href)
    | some varName =>
      rw [use_of_varName? hv] at hstart
      have ha : a ∈ kept := hstart ⟨a, varName⟩ (List.mem_singleton_self _)
      exact hclosed a ha ref (hvalue ref href)

/-- The value of the other node stands in that of the one. -/
def Inlines (r : Resolver) (n other : String) : Prop :=
  Uses r.latestFirst n other ∧ r.sharing.varName? other = none

theorem uses_of_inlines {start id : String} (h : Relation.ReflTransGen r.Inlines start id) :
    Relation.ReflTransGen (Uses r.latestFirst) start id :=
  Relation.ReflTransGen.mono (fun _ _ hinlines ↦ hinlines.1) _ _ h

end Resolver

namespace Graph

variable {g : Graph} {registry : Registry} {r : Resolver} {id : String}

/-- A field of the target depends on the node. -/
def Feeds (g : Graph) (l : List (String × BuiltExpr)) (id : String) : Prop :=
  ∃ e ∈ g.targetEdges, ∃ start, e.source = .node start ∧ Relation.ReflTransGen (Uses l) start id

theorem feeds_of_mem_live (hl : LatestFirst r.latestFirst)
    (h : id ∈ live (g.mappingsBy r) (g.sharedBy registry r)) : g.Feeds r.latestFirst id := by
  refine live_ind h (fun m hm ref href ↦ ?_) fun t ht _ ih ref href ↦ ?_
  · obtain ⟨e, he, start, hs, href⟩ := refs_mappingsBy hm href
    exact ⟨e, he, start, hs, (Resolver.refs_use hl href).2⟩
  · obtain ⟨n, _, rfl⟩ := List.mem_map.mp ht
    obtain ⟨e, he, start, hs, hway⟩ := ih
    exact ⟨e, he, start, hs, hway.trans (Resolver.refs_value hl href).2.to_reflTransGen⟩

/-- **A shared node is live if and only if a field of the target depends on it.** -/
theorem mem_live_iff (hl : LatestFirst r.latestFirst)
    (hid : id ∈ r.sharing.nodes.map SharedNode.node) :
    id ∈ live (g.mappingsBy r) (g.sharedBy registry r) ↔ g.Feeds r.latestFirst id := by
  refine ⟨feeds_of_mem_live hl, ?_⟩
  rintro ⟨e, he, start, hs, hway⟩
  refine Resolver.mem_of_way hl (fun n hn ref href ↦ ?_) hid hway fun ref href ↦ ?_
  · have hshared := (mem_gather_iff.mp hn).mem
    obtain ⟨t, ht, rfl⟩ := List.mem_map.mp hshared
    obtain ⟨node, _, rfl⟩ := List.mem_map.mp ht
    obtain ⟨s, hs, hnames⟩ := exists_sharedBy (varName?_of_shared hl ht href)
    exact hnames.1 ▸ mem_live_of_shared hs ht hn href hnames.1
  · have hm : (⟨Handle.cleanPath e.targetPath, r.ofEdge e⟩ : FieldMapping) ∈ g.mappingsBy r :=
      List.mem_map_of_mem he
    have href' : ref ∈ (r.ofEdge e).refs := by
      rw [Resolver.ofEdge, hs]
      exact href
    obtain ⟨s, hs, hnames⟩ := exists_sharedBy (varName?_of_mapping hl hm href')
    exact hnames.1 ▸ mem_live_of_mapping hs hm href' hnames.1

/-! ## Atoms of values -/

/-- **An atom of a value** is the null of an unbuilt node, or was inlined from the node that it
belongs to. -/
theorem exists_of_mem_atoms_value (hl : LatestFirst r.latestFirst) {a : Atom}
    (h : a ∈ (r.value id).atoms) : a = .literal .null .null ∨ ∃ n e,
      Relation.ReflTransGen r.Inlines id n ∧ (n, e) ∈ r.latestFirst ∧ a ∈ e.atoms := by
  by_cases hid : id ∈ r.latestFirst.map Prod.fst
  · revert h
    refine hl.ind hid fun n e hmem ih h ↦ ?_
    rw [Resolver.value_eq hl hmem, Expr.mem_atoms_mapRefs] at h
    rcases h with h | ⟨p, hp, h⟩
    · exact .inr ⟨n, e, .refl, hmem, h⟩
    · cases hv : r.sharing.varName? p.node with
      | some varName =>
        rw [Resolver.use_of_varName? hv] at h
        exact absurd h List.not_mem_nil
      | none =>
        rw [Resolver.use_of_varName?_eq_none hv] at h
        refine (ih p hp h).imp_right fun ⟨n', e', hway, hmem', h⟩ ↦ ?_
        exact ⟨n', e', .head ⟨⟨e, hmem, p, hp, rfl⟩, hv⟩ hway, hmem', h⟩
  · rw [Resolver.value_of_not_mem hid] at h
    exact .inl (List.mem_singleton.mp h)

/-- A call of a value is one of a node that the value depends on. -/
theorem exists_of_mem_calls_value (hl : LatestFirst r.latestFirst) {call : String × Option Json}
    (h : call ∈ (r.value id).calls) : ∃ n e,
      Relation.ReflTransGen (Uses r.latestFirst) id n ∧ (n, e) ∈ r.latestFirst ∧ call ∈ e.calls := by
  rcases exists_of_mem_atoms_value hl (Expr.mem_calls_iff.mp h) with h | ⟨n, e, hway, hmem, h⟩
  · cases h
  · exact ⟨n, e, Resolver.uses_of_inlines hway, hmem, Expr.mem_calls_iff.mpr h⟩

end Graph

theorem uses_reverse (l : List (String × BuiltExpr)) : Uses l.reverse = Uses l := by
  funext n other
  simp only [Uses, List.mem_reverse]

/-! ## What is shared -/

namespace Compiler

variable (c : Compiler) (d : Document)

/-- The value of the one node needs that of the other, through any number of built expressions. -/
def Depends : String → String → Prop := Relation.ReflTransGen (Uses (c.stages d).output.built)

/-- The kind of the node is registered as impure. -/
def Impure (id : String) : Prop :=
  ∃ node info, (c.stages d).graph.node? id = some node ∧
    c.registry.find? node.kind = some info ∧ info.isPure = false

/-- The node was built and is shareable. -/
def Shareable (id : String) : Prop :=
  ∃ e, (id, e) ∈ (c.stages d).output.built ∧
    (c.stages d).graph.isShareable c.registry c.options.minHoistCost
      (c.stages d).graph.arrayScoped id e = true

/-- The node is shareable, and a field of the target depends on it. -/
def Hoists (id : String) : Prop :=
  c.options.hoistShared = true ∧ c.Shareable d id ∧
    (c.stages d).graph.Feeds (c.stages d).output.built id

theorem uses_resolver : Uses (c.resolver d).latestFirst = Uses (c.stages d).output.built := by
  rw [resolver, Resolver.of, uses_reverse]

theorem mem_latestFirst_iff {id : String} {e : BuiltExpr} :
    (id, e) ∈ (c.resolver d).latestFirst ↔ (id, e) ∈ (c.stages d).output.built := by
  rw [resolver, Resolver.of, List.mem_reverse]

theorem mem_sharing_iff {id : String} :
    id ∈ (c.resolver d).sharing.nodes.map SharedNode.node ↔
      c.options.hoistShared = true ∧ c.Shareable d id := by
  rw [resolver, Resolver.of, stages_sharing]
  exact Graph.mem_sharing_iff

/-- **The shared values are those of the nodes that are shareable and needed.** -/
theorem exists_shared_iff {id : String} :
    (∃ s ∈ (c.compile d).output.shared, s.node = id) ↔ c.Hoists d id := by
  have hl := c.resolver_latestFirst d
  have hfeeds : (c.stages d).graph.Feeds (c.resolver d).latestFirst id ↔
      (c.stages d).graph.Feeds (c.stages d).output.built id := by
    rw [Graph.Feeds, Graph.Feeds, uses_resolver]
  rw [Hoists, ← and_assoc, ← mem_sharing_iff, ← hfeeds]
  constructor
  · rintro ⟨s, hs, rfl⟩
    obtain ⟨hmem, hlive⟩ := (c.mem_shared_iff d).mp hs
    have hnode : s.node ∈ (c.resolver d).sharing.nodes.map SharedNode.node := by
      rw [← Graph.map_node_sharedBy (c.stages d).graph c.registry]
      exact List.mem_map_of_mem hmem
    exact ⟨hnode, (Graph.mem_live_iff hl hnode).mp hlive⟩
  · rintro ⟨hnode, hfed⟩
    have hlive := (@Graph.mem_live_iff _ c.registry _ _ hl hnode).mpr hfed
    obtain ⟨s, hs, rfl⟩ := List.mem_map.mp (Graph.mem_gather_iff.mp hlive).mem
    exact ⟨s, (c.mem_shared_iff d).mpr ⟨hs, hlive⟩, rfl⟩

/-! ## Purity -/

theorem not_impure_of_shareable {id : String} (h : c.Shareable d id) : ¬ c.Impure d id := by
  rintro ⟨node, info, hnode, hinfo, himpure⟩
  obtain ⟨e, _, he⟩ := h
  obtain ⟨_, ⟨node', info', hnode', hinfo', hpure⟩, _⟩ := Graph.isShareable_iff.mp he
  obtain rfl : node = node' := Option.some.inj (hnode.symm.trans hnode')
  obtain rfl : info = info' := Option.some.inj (hinfo.symm.trans hinfo')
  exact Bool.false_ne_true (himpure.symm.trans hpure)

/-- A built node that calls `now`, or a function of its own, is impure in the standard registry. -/
theorem impure_of_mem_calls (hc : c.registry = Registry.standard) {n : String} {e : BuiltExpr}
    (hn : (n, e) ∈ (c.stages d).output.built) {call : String × Option Json} (hcall : call ∈ e.calls)
    (h : call = ("now", none) ∨ call.2 ≠ none) : c.Impure d n := by
  rw [stages_output] at hn
  obtain ⟨node, hnode, rfl⟩ := Graph.exists_node?_of_mem_built hn
  rw [Graph.calls_exprOf, Option.mem_toList] at hcall
  obtain ⟨function, config⟩ := call
  have hkind : node.kind = .now ∨ node.kind = .customFunction := by
    rcases h with heq | hne
    · rw [heq] at hcall
      exact .inl (Node.kind_of_callee?_now hcall)
    · obtain ⟨value, rfl⟩ := Option.ne_none_iff_exists'.mp hne
      exact .inr (Node.kind_of_callee?_some hcall)
  refine ⟨node, ⟨false, Registry.displayNameOf node.kind.name⟩, hnode, ?_, rfl⟩
  rcases hkind with hkind | hkind
  · rw [hc, hkind]
    exact Registry.find?_standard rfl
  · rw [hc, hkind]
    exact Registry.find?_standard rfl

/-- A call of an expanded shared value is one of a node that it depends on. -/
theorem exists_of_mem_calls_expanded {s : SharedExpression} (hs : s ∈ (c.compile d).output.shared)
    {rounds : Nat} (hr : (c.compile d).output.shared.length ≤ rounds) {call : String × Option Json}
    (hcall : call ∈ ((c.compile d).output.expandOnce^[rounds] s.expression).calls) :
    ∃ n e, c.Depends d s.node n ∧ (n, e) ∈ (c.stages d).output.built ∧ call ∈ e.calls := by
  obtain ⟨k, hk⟩ := List.mem_iff_getElem?.mp hs
  have hlt := (List.getElem?_eq_some_iff.mp hk).1
  rw [c.expandOnce_iterate d rounds, c.mapRefs_of_mem_shared d hs] at hcall
  · obtain ⟨n, e, hway, hmem, hcall⟩ :=
      Graph.exists_of_mem_calls_value (r := (c.resolver d).unshared) (c.resolver_latestFirst d) hcall
    change Relation.ReflTransGen (Uses (c.resolver d).latestFirst) s.node n at hway
    rw [uses_resolver] at hway
    exact ⟨n, e, hway, (c.mem_latestFirst_iff d).mp hmem, hcall⟩
  · intro ref href
    obtain ⟨j, hj, t, ht, hnames⟩ := c.exists_earlier_of_mem_refs d hk href
    exact ⟨j, by omega, t, ht, hnames⟩

/-- What sharing should leave alone. -/
structure HoistsPurely : Prop where
  /-- A shared value is not impure and does not depend on what is. -/
  independent : ∀ s ∈ (c.compile d).output.shared, ∀ n, c.Depends d s.node n → ¬ c.Impure d n
  /-- Expanded, it does not read the clock and calls no function that is defined elsewhere. -/
  callFree : c.registry = Registry.standard → ∀ s ∈ (c.compile d).output.shared,
    ∀ rounds ≥ (c.compile d).output.shared.length,
      ∀ call ∈ ((c.compile d).output.expandOnce^[rounds] s.expression).calls,
        call ≠ ("now", none) ∧ call.2 = none

/-- **When sharing leaves impure operations alone.**  That a shared node is pure itself is seen to;
what is asked for in addition is that none of the nodes it depends on is impure. -/
theorem hoistsPurely_iff : c.HoistsPurely d ↔
    ∀ id, c.Hoists d id → ∀ n, Relation.TransGen (Uses (c.stages d).output.built) id n →
      ¬ c.Impure d n := by
  constructor
  · intro h id hid n hway
    obtain ⟨s, hs, rfl⟩ := (c.exists_shared_iff d).mpr hid
    exact h.independent s hs n hway.to_reflTransGen
  · intro h
    have hindependent : ∀ s ∈ (c.compile d).output.shared, ∀ n, c.Depends d s.node n →
        ¬ c.Impure d n := fun s hs n hway ↦ by
      have hoists := (c.exists_shared_iff d).mp ⟨s, hs, rfl⟩
      rcases Relation.reflTransGen_iff_eq_or_transGen.mp hway with rfl | hway
      · exact c.not_impure_of_shareable d hoists.2.1
      · exact h s.node hoists n hway
    refine ⟨hindependent, fun hc s hs rounds hr call hcall ↦ ?_⟩
    obtain ⟨n, e, hway, hmem, hcall⟩ := c.exists_of_mem_calls_expanded d hs hr hcall
    have hpure := mt (c.impure_of_mem_calls d hc hmem hcall) (hindependent s hs n hway)
    rw [not_or, not_ne_iff] at hpure
    exact hpure

/-- The clock is read in capitals, and two fields of the target show it. -/
def shoutedClock : Document where
  nodes := [⟨"clock", .now, none, .null⟩, ⟨"shout", .uppercase, none, .null⟩]
  edges :=
    [⟨"e1", .node "clock", none, .node "shout", some "input-0"⟩,
     ⟨"e2", .node "shout", none, .target, some "$.a"⟩,
     ⟨"e3", .node "shout", none, .target, some "$.b"⟩]

/-- The clock is read once for both fields. -/
theorem not_hoistsPurely_shoutedClock : ¬ ({} : Compiler).HoistsPurely shoutedClock := by
  intro h
  have hbuilt : (({} : Compiler).stages shoutedClock).output.built =
      [("clock", .call "now" [] none), ("shout", .call "uppercase" [.reference ⟨"clock"⟩] none)] :=
    rfl
  have hedges : (({} : Compiler).stages shoutedClock).graph.targetEdges =
      shoutedClock.edges.tail := rfl
  have huses : Uses (({} : Compiler).stages shoutedClock).output.built "shout" "clock" := by
    rw [hbuilt]
    exact ⟨_, List.mem_cons_of_mem _ (List.mem_singleton_self _), ⟨"clock"⟩, by decide, rfl⟩
  have hscoped : (({} : Compiler).stages shoutedClock).graph.arrayScoped = [] := by
    have hplain : (shoutedClock.edges.tail.filter fun e ↦ Handle.isArrayPath e.targetPath) = [] :=
      rfl
    rw [Graph.arrayScoped, hedges, hplain, List.filterMap_nil, Graph.ancestors, Graph.gather]
  have hshareable : ({} : Compiler).Shareable shoutedClock "shout" := by
    rw [Shareable, hbuilt, hscoped]
    exact ⟨_, List.mem_cons_of_mem _ (List.mem_singleton_self _), rfl⟩
  have hfeeds : (({} : Compiler).stages shoutedClock).graph.Feeds
      (({} : Compiler).stages shoutedClock).output.built "shout" := by
    rw [Graph.Feeds, hedges]
    exact ⟨_, List.mem_cons_self, "shout", rfl, .refl⟩
  obtain ⟨s, hs, hnode⟩ := (({} : Compiler).exists_shared_iff shoutedClock).mpr
    ⟨rfl, hshareable, hfeeds⟩
  refine h.independent s hs "clock" (hnode ▸ .single huses) ?_
  exact ⟨_, _, rfl, Registry.find?_standard rfl, rfl⟩

end Compiler

end MappingGraph
