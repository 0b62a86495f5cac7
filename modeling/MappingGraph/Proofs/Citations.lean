import Mathlib.Algebra.Ring.Nat
import MappingGraph.Proofs.Purity
import MappingGraph.Proofs.Upstream

/-!
# How often a shared value is referred to

A value is shared if at least two edges lead from its node on, to other nodes or to the target.  The
edges are counted before it is known which nodes the target depends on, and which of its inputs an
operation makes use of.  So the count of the edges is not the count of the references that there are
in the output.  `Compiler.citations_eq` gives the latter: there is one for each edge into the target
and one for each placeholder of the node in an expression that is written down.

The expression of a shared node is written down once, that of any other node once for each time that
the node is used.  `Resolver.written` lists the nodes whose expressions make up a value, along the
same recursion as `Resolver.value`.

Every shared value is referred to at least once, or else it is left out.  It may be just once, and
the last theorem has a document where this happens.
-/

set_option autoImplicit false

namespace MappingGraph

/-- A sum over a list, of which each member gives what its list gives, and some give one more. -/
theorem sum_map_eq_countP_add {α β : Type} {l : List α} {counted : α → Bool} {f : α → Nat}
    {parts : α → List β} {weight : β → Nat}
    (h : ∀ a ∈ l, f a = (if counted a then 1 else 0) + ((parts a).map weight).sum) :
    (l.map f).sum = l.countP counted + ((l.flatMap parts).map weight).sum := by
  induction l with
  | nil => rfl
  | cons a l ih =>
    have ih := ih fun b hb ↦ h b (List.mem_cons_of_mem _ hb)
    have ha := h a List.mem_cons_self
    rw [List.map_cons, List.sum_cons, List.countP_cons, List.flatMap_cons, List.map_append,
      List.sum_append, ih, ha]
    omega

/-! ## What a value is made of -/

namespace Resolver

variable {r : Resolver} {sharing : Sharing} {l earlier : List (String × BuiltExpr)}
  {id n varName : String} {e : BuiltExpr} {uses : String → Nat}

/-- The nodes whose expressions a use of a node is made of: none if it is a reference. -/
def writtenBy (sharing : Sharing) (written : String → List String) (id : String) : List String :=
  match sharing.varName? id with
  | some _ => []
  | none => written id

/-- The nodes whose expressions the value of a node is made of, among built nodes, the latest
first. -/
def writtenAmong (sharing : Sharing) : List (String × BuiltExpr) → String → List String
  | [], _ => []
  | (n, e) :: earlier, id =>
    if n = id then
      n :: e.refs.flatMap fun p ↦ writtenBy sharing (writtenAmong sharing earlier) p.node
    else writtenAmong sharing earlier id

/-- The nodes whose expressions the value of a node is made of, each as often as its expression
occurs. -/
def written (r : Resolver) (id : String) : List String := writtenAmong r.sharing r.latestFirst id

/-- The nodes whose expressions a use of the node is made of. -/
def writtenUse (r : Resolver) (id : String) : List String := writtenBy r.sharing r.written id

theorem writtenBy_congr {f g : String → List String} (h : f id = g id) :
    writtenBy sharing f id = writtenBy sharing g id := by
  rw [writtenBy, writtenBy, h]

theorem writtenAmong_of_not_mem (h : id ∉ l.map Prod.fst) : writtenAmong sharing l id = [] := by
  induction l with
  | nil => rfl
  | cons p l ih =>
    rw [List.map_cons, List.mem_cons, not_or] at h
    rw [writtenAmong, if_neg (Ne.symm h.1), ih h.2]

theorem writtenAmong_cons (hl : LatestFirst ((n, e) :: earlier)) (h : id ∈ earlier.map Prod.fst) :
    writtenAmong sharing ((n, e) :: earlier) id = writtenAmong sharing earlier id := by
  rw [writtenAmong, if_neg]
  rintro rfl
  exact hl.1 h

theorem writtenAmong_of_mem (hl : LatestFirst l) (h : (n, e) ∈ l) : writtenAmong sharing l n =
    n :: e.refs.flatMap fun p ↦ writtenBy sharing (writtenAmong sharing l) p.node := by
  induction l with
  | nil => exact absurd h List.not_mem_nil
  | cons m earlier ih =>
    obtain ⟨n', e'⟩ := m
    rcases List.mem_cons.mp h with heq | hmem
    · obtain ⟨rfl, rfl⟩ := Prod.mk.inj heq
      rw [writtenAmong, if_pos rfl]
      refine congrArg _ (List.flatMap_congr fun p hp ↦ ?_)
      exact writtenBy_congr (writtenAmong_cons hl (hl.2.1 p hp)).symm
    · rw [writtenAmong_cons hl (List.mem_map_of_mem hmem), ih hl.2.2 hmem]
      refine congrArg _ (List.flatMap_congr fun p hp ↦ ?_)
      exact writtenBy_congr (writtenAmong_cons hl (hl.2.2.refs_mem hmem hp)).symm

/-- The value of a built node is made of its expression and of what the uses in it are made of. -/
theorem written_eq (hl : LatestFirst r.latestFirst) (h : (n, e) ∈ r.latestFirst) :
    r.written n = n :: e.refs.flatMap fun p ↦ r.writtenUse p.node :=
  writtenAmong_of_mem hl h

theorem count_refs_use_of_value (hv : r.sharing.varName? id = some varName)
    (h : (r.value n).refs.count ⟨id, varName⟩ = ((r.written n).map uses).sum) :
    (r.use n).refs.count ⟨id, varName⟩ =
      (if n = id then 1 else 0) + ((r.writtenUse n).map uses).sum := by
  cases hn : r.sharing.varName? n with
  | some name =>
    rw [use_of_varName? hn, writtenUse, writtenBy, hn, Expr.refs, List.count_singleton]
    by_cases heq : n = id
    · subst heq
      obtain rfl := Option.some.inj (hn.symm.trans hv)
      simp
    · simp [heq]
  | none =>
    have hne : n ≠ id := by
      rintro rfl
      rw [hn] at hv
      cases hv
    rw [use_of_varName?_eq_none hn, writtenUse, writtenBy, hn, if_neg hne, h, Nat.zero_add]

/-- **The references that are left in a value** are the placeholders in the expressions that it is
made of. -/
theorem count_refs_value (hl : LatestFirst r.latestFirst)
    (hv : r.sharing.varName? id = some varName)
    (huses : ∀ n e, (n, e) ∈ r.latestFirst → uses n = e.refs.countP (·.node = id)) (n : String) :
    (r.value n).refs.count ⟨id, varName⟩ = ((r.written n).map uses).sum := by
  by_cases hn : n ∈ r.latestFirst.map Prod.fst
  · refine hl.ind hn fun n e hmem ih ↦ ?_
    rw [value_eq hl hmem, written_eq hl hmem, Expr.refs_mapRefs, List.count_flatMap, List.map_cons,
      List.sum_cons, huses n e hmem]
    refine sum_map_eq_countP_add fun p hp ↦ ?_
    rw [Function.comp_apply, count_refs_use_of_value hv (ih p hp)]
    simp
  · rw [value_of_not_mem hn, written, writtenAmong_of_not_mem hn]
    rfl

theorem count_refs_use (hl : LatestFirst r.latestFirst) (hv : r.sharing.varName? id = some varName)
    (huses : ∀ n e, (n, e) ∈ r.latestFirst → uses n = e.refs.countP (·.node = id)) (n : String) :
    (r.use n).refs.count ⟨id, varName⟩ =
      (if n = id then 1 else 0) + ((r.writtenUse n).map uses).sum :=
  count_refs_use_of_value hv (count_refs_value hl hv huses n)

/-- The nodes whose expressions stand in the field that the edge leads to. -/
def writtenEdge (r : Resolver) (e : Edge) : List String :=
  match e.source with
  | .node id => r.writtenUse id
  | .source | .target => []

end Resolver

/-! ## What an output is made of -/

/-- The references to a shared value, in mappings and in shared values. -/
def CompiledMapping.citations (out : CompiledMapping) (s : SharedExpression) : Nat :=
  (out.mappings.flatMap fun m ↦ m.expression.refs).count ⟨s.node, s.varName⟩ +
    (out.shared.flatMap fun t ↦ t.expression.refs).count ⟨s.node, s.varName⟩

/-- The placeholders for the one node in the expression of the other. -/
def BuildOutput.placeholders (out : BuildOutput) (id n : String) : Nat :=
  ((out.expr? n).elim [] Expr.refs).countP (·.node = id)

namespace Compiler

variable (c : Compiler) (d : Document)

/-- The nodes whose expressions stand in the output, each as often as its expression does. -/
def written : List String :=
  (c.stages d).graph.targetEdges.flatMap (c.resolver d).writtenEdge ++
    (c.compile d).output.shared.flatMap fun s ↦ (c.resolver d).written s.node

theorem placeholders_eq (id : String) {n : String} {e : BuiltExpr}
    (h : (n, e) ∈ (c.resolver d).latestFirst) :
    (c.stages d).output.placeholders id n = e.refs.countP (·.node = id) := by
  have hexpr : (c.stages d).output.expr? n = some e := by
    rw [mem_latestFirst_iff, stages_output] at h
    exact Graph.mem_built_iff.mp h
  rw [BuildOutput.placeholders, hexpr, Option.elim_some]

section Counts

variable {n : SharedNode}

/-- The references in mappings: one for each edge from the node, and those in what the values at the
edges are made of. -/
theorem count_refs_mappings (hn : n ∈ (c.resolver d).sharing.nodes) :
    ((c.compile d).output.mappings.flatMap fun m ↦ m.expression.refs).count ⟨n.node, n.varName⟩ =
      (c.stages d).graph.targetEdges.countP (·.source = .node n.node) +
        (((c.stages d).graph.targetEdges.flatMap (c.resolver d).writtenEdge).map
          ((c.stages d).output.placeholders n.node)).sum := by
  rw [mappings_compile, Graph.mappingsBy, List.flatMap_map, List.count_flatMap]
  refine sum_map_eq_countP_add fun e _ ↦ ?_
  rw [Function.comp_apply, Resolver.ofEdge, Resolver.writtenEdge]
  cases e.source with
  | source | target => rfl
  | node id =>
    simp only [Endpoint.node.injEq, decide_eq_true_eq]
    exact Resolver.count_refs_use (c.resolver_latestFirst d)
      (Sharing.varName?_of_mem (c.nodup_sharing d) hn) (fun _ _ ↦ c.placeholders_eq d n.node) id

/-- The references in shared values: those in what the values are made of. -/
theorem count_refs_shared (hn : n ∈ (c.resolver d).sharing.nodes) :
    ((c.compile d).output.shared.flatMap fun t ↦ t.expression.refs).count ⟨n.node, n.varName⟩ =
      (((c.compile d).output.shared.flatMap fun t ↦ (c.resolver d).written t.node).map
        ((c.stages d).output.placeholders n.node)).sum := by
  rw [List.count_flatMap, @sum_map_eq_countP_add _ _ _ (fun _ ↦ false), List.countP_false,
    Function.const_apply, Nat.zero_add]
  intro t ht
  obtain ⟨m, _, rfl⟩ := List.mem_map.mp ((c.mem_shared_iff d).mp ht).1
  rw [Function.comp_apply, if_neg Bool.false_ne_true, Nat.zero_add]
  exact Resolver.count_refs_value (c.resolver_latestFirst d)
    (Sharing.varName?_of_mem (c.nodup_sharing d) hn) (fun _ _ ↦ c.placeholders_eq d n.node) m.node

end Counts

/-- **How often a shared value is referred to.** -/
theorem citations_eq {s : SharedExpression} (hs : s ∈ (c.compile d).output.shared) :
    (c.compile d).output.citations s =
      (c.stages d).graph.targetEdges.countP (·.source = .node s.node) +
        ((c.written d).map ((c.stages d).output.placeholders s.node)).sum := by
  obtain ⟨n, hn, rfl⟩ := List.mem_map.mp ((c.mem_shared_iff d).mp hs).1
  rw [CompiledMapping.citations, written, List.map_append, List.sum_append, ← Nat.add_assoc]
  exact congrArg₂ _ (c.count_refs_mappings d hn) (c.count_refs_shared d hn)

/-- A shared value has the count of the edges that its node is used by. -/
theorem refCount_of_mem_shared {s : SharedExpression} (hs : s ∈ (c.compile d).output.shared) :
    s.refCount = (c.stages d).graph.refCount s.node := by
  obtain ⟨n, hn, rfl⟩ := List.mem_map.mp ((c.mem_shared_iff d).mp hs).1
  exact Graph.refCount_of_mem_sharing hn

theorem two_le_refCount {s : SharedExpression} (hs : s ∈ (c.compile d).output.shared) :
    2 ≤ (c.stages d).graph.refCount s.node := by
  obtain ⟨_, ⟨e, _, he⟩, _⟩ := (c.exists_shared_iff d).mp ⟨s, hs, rfl⟩
  exact (Graph.isShareable_iff.mp he).1

/-- What is needed is referred to. -/
theorem citations_pos {s : SharedExpression} (hs : s ∈ (c.compile d).output.shared) :
    0 < (c.compile d).output.citations s := by
  have hkept := (c.mem_shared_iff d).mp hs
  have hlive : (c.compile d).output.Live s := Graph.live_of_mem_live (c.resolver_latestFirst d)
    (c.nodup_sharing d) (c.mappings_compile d) (c.shared_compile d) hkept.2 s hkept.1 rfl
  have hcount : ∀ {refs : List SharedRef} {ref : SharedRef}, ref ∈ refs → ref.Names s →
      0 < refs.count ⟨s.node, s.varName⟩ := fun {refs ref} href hnames ↦ by
    rw [hnames.1, hnames.2]
    exact List.count_pos_iff.mpr href
  rw [CompiledMapping.citations]
  cases hlive with
  | ofMapping hm href _ hnames =>
    exact Nat.add_pos_left (hcount (List.mem_flatMap.mpr ⟨_, hm, href⟩) hnames) _
  | ofShared ht href _ hnames =>
    have hmem : ∀ {t}, (c.compile d).output.Live t → t ∈ (c.compile d).output.shared := fun ht ↦ by
      cases ht with
      | ofMapping _ _ ht _ | ofShared _ _ ht _ => exact ht
    exact Nat.add_pos_right _ (hcount (List.mem_flatMap.mpr ⟨_, hmem ht, href⟩) hnames)

/-- The references to shared values and the edges that the values are shared for. -/
structure CountsUses : Prop where
  /-- The edges into other nodes and into the target are counted, and there are at least two. -/
  refCount : ∀ s ∈ (c.compile d).output.shared,
    s.refCount = (c.stages d).graph.refCount s.node ∧ 2 ≤ s.refCount
  /-- A shared value is referred to. -/
  cited : ∀ s ∈ (c.compile d).output.shared, 0 < (c.compile d).output.citations s
  /-- The references are those of edges into the target and of placeholders that are written
  down. -/
  citations : ∀ s ∈ (c.compile d).output.shared, (c.compile d).output.citations s =
    (c.stages d).graph.targetEdges.countP (·.source = .node s.node) +
      ((c.written d).map ((c.stages d).output.placeholders s.node)).sum

/-- **Shared values are used at least twice and referred to at least once.** -/
theorem compile_countsUses : c.CountsUses d where
  refCount s hs := ⟨c.refCount_of_mem_shared d hs, by
    rw [c.refCount_of_mem_shared d hs]
    exact c.two_le_refCount d hs⟩
  cited _ := c.citations_pos d
  citations _ := c.citations_eq d

/-- A sum goes into the target and into a node that nothing uses. -/
def idleUse : Document where
  nodes := [⟨"sum", .add, none, .null⟩, ⟨"idle", .negate, none, .null⟩]
  edges := [⟨"e1", .node "sum", none, .target, some "$.a"⟩,
    ⟨"e2", .node "sum", none, .node "idle", some "input-0"⟩]

/-- The sum is shared, though nothing but one field refers to it. -/
theorem citations_idleUse : ¬ ∀ s ∈ (({} : Compiler).compile idleUse).output.shared,
    2 ≤ (({} : Compiler).compile idleUse).output.citations s := by
  have hbuilt : (({} : Compiler).stages idleUse).output.built =
      [("sum", .binary .add .null .null), ("idle", .unary .negate (.reference ⟨"sum"⟩))] := rfl
  have hedges : (({} : Compiler).stages idleUse).graph.targetEdges = idleUse.edges.take 1 := rfl
  have hscoped : (({} : Compiler).stages idleUse).graph.arrayScoped = [] := by
    have hplain : ((idleUse.edges.take 1).filter fun e ↦ Handle.isArrayPath e.targetPath) = [] :=
      rfl
    rw [Graph.arrayScoped, hedges, hplain, List.filterMap_nil, Graph.ancestors, Graph.gather]
  have hsharing : (({} : Compiler).stages idleUse).sharing = ⟨[⟨"sum", "shared_sum", 2⟩]⟩ := by
    rw [stages_sharing, Graph.sharing, hscoped]
    rfl
  have hresolver : ({} : Compiler).resolver idleUse =
      ⟨[("idle", .unary .negate (.reference ⟨"sum"⟩)), ("sum", .binary .add .null .null)],
        ⟨[⟨"sum", "shared_sum", 2⟩]⟩⟩ := by
    rw [resolver, hsharing, Resolver.of, hbuilt]
    rfl
  have hmappings : ((({} : Compiler).compile idleUse).output.mappings.flatMap fun m ↦
      m.expression.refs) = [⟨"sum", "shared_sum"⟩] := by
    rw [mappings_compile, hresolver, Graph.mappingsBy, hedges]
    rfl
  have hshared : ((({} : Compiler).compile idleUse).output.shared.flatMap fun t ↦
      t.expression.refs) = [] := by
    refine List.flatMap_eq_nil_iff.mpr fun t ht ↦ ?_
    have hmem := (mem_shared_iff _ _).mp ht
    rw [hresolver] at hmem
    rw [List.mem_singleton.mp hmem.1]
    rfl
  have hnode : "sum" ∈ (({} : Compiler).resolver idleUse).sharing.nodes.map SharedNode.node := by
    rw [hresolver]
    exact List.mem_singleton_self _
  have hfeeds : (({} : Compiler).stages idleUse).graph.Feeds
      (({} : Compiler).stages idleUse).output.built "sum" := by
    rw [Graph.Feeds, hedges]
    exact ⟨_, List.mem_cons_self, "sum", rfl, .refl⟩
  obtain ⟨hhoists, hshareable⟩ := (mem_sharing_iff _ _).mp hnode
  obtain ⟨s, hs, _⟩ := (exists_shared_iff _ _).mpr ⟨hhoists, hshareable, hfeeds⟩
  intro h
  have htwo := h s hs
  rw [CompiledMapping.citations, hmappings, hshared, List.count_nil, Nat.add_zero] at htwo
  have hone : [(⟨"sum", "shared_sum"⟩ : SharedRef)].count ⟨s.node, s.varName⟩ ≤ 1 :=
    List.count_le_length
  omega

end Compiler

end MappingGraph
