import Mathlib.Data.List.Forall2
import Mathlib.Data.List.Induction
import MappingGraph.Proofs.Build.Complete
import MappingGraph.Proofs.Expansion
import MappingGraph.Proofs.Sanitation

/-!
# Nulls for unbuilt nodes

A node that was not built is null wherever it is used.  Sanitation leaves no edge without its nodes,
so that cycles are the only cause (`Compiler.mem_unbuiltIds_iff`), and a node that was built uses
built nodes only.  Hence the null of an unbuilt node never gets into the expression of another node:
it stands in a mapping, as the whole of it, and nowhere else.

Each such null is told of when its node is met first.  `Graph.missingBy_eq` has the list without the
run that makes it, and `Resolver.MeetsBuilt` says of the rest of the run that it does not come across
an unbuilt node, whatever was resolved before.
-/

set_option autoImplicit false

namespace MappingGraph

/-! ## Inputs that are there -/

namespace Graph

variable {g : Graph} {built : List String} {id : String}

theorem mem_ids_ofDocument {d : Document} : id ∈ (ofDocument d).ids ↔ ∃ n ∈ d.nodes, n.id = id := by
  rw [ids, ofDocument, map_id_firstById, List.mem_eraseDups, List.mem_map]

theorem missingInput?_eq_none_iff : g.missingInput? id = none ↔ ¬ g.LacksInput id := by
  simp [missingInput?, lacksInput_iff, mem_ids_iff]

/-- A node that lacks no input is left out for another reason. -/
theorem unbuiltReason_ne (h : ¬ g.LacksInput id) (missing : String) :
    g.unbuiltReason built id ≠ .missingInput missing := by
  rw [unbuiltReason, missingInput?_eq_none_iff.mpr h]
  split <;> exact fun h ↦ by cases h

theorem map_node_unbuilt (g : Graph) (built : List String) :
    (g.unbuilt built).map (·.node) = g.ids.filter (· ∉ built) := by
  rw [unbuilt, List.map_map]
  exact List.map_id _

end Graph

/-! ## Nodes that are met -/

namespace Resolver

variable {r : Resolver} {τ α : Type} {view : ResolverState → τ} {id : String}
  {earlier : List (String × BuiltExpr)}

/-- The view does not show what is remembered of built nodes. -/
def Overlooks (r : Resolver) (view : ResolverState → τ) : Prop :=
  ∀ id ∈ r.latestFirst.map Prod.fst, ∀ s e, view (ResolverState.remember s id e) = view s

theorem remembering_leavesAlone {x : StateM ResolverState Expression} (hview : r.Overlooks view)
    (hid : id ∈ r.latestFirst.map Prod.fst) (hx : LeavesAlone view x) :
    LeavesAlone view (remembering id x) := by
  intro s
  rw [run_remembering]
  cases s.find? id with
  | some e => rfl
  | none => exact (hview id hid _ _).trans (hx s)

theorem resolveBy_leavesAlone {sharing : Sharing}
    {inline : String → StateM ResolverState Expression} (h : LeavesAlone view (inline id)) :
    LeavesAlone view (resolveBy sharing inline id) := by
  rw [resolveBy]
  cases sharing.varName? id with
  | some varName => exact .pure _ _
  | none => exact h

/-- Resolving a built node among the nodes up to it remembers built nodes only. -/
theorem inlineAmong_leavesAlone (hl : LatestFirst r.latestFirst) (hview : r.Overlooks view)
    (hsuffix : earlier <:+ r.latestFirst) (hid : id ∈ earlier.map Prod.fst) :
    LeavesAlone view (inlineAmong r.sharing earlier id) := by
  induction earlier generalizing id with
  | nil => exact absurd hid List.not_mem_nil
  | cons m earlier ih =>
    obtain ⟨n, e⟩ := m
    have hearlier : earlier <:+ r.latestFirst := (List.suffix_cons _ _).trans hsuffix
    rw [inlineAmong]
    split
    · refine e.mapRefsM_leavesAlone fun p hp ↦ resolveBy_leavesAlone ?_
      have hbefore : p.node ∈ earlier.map Prod.fst := hl.refs_before hsuffix hp
      have hbuilt : p.node ∈ r.latestFirst.map Prod.fst := (hearlier.map _).subset hbefore
      exact remembering_leavesAlone hview hbuilt (ih hearlier hbefore)
    · next hne =>
      rw [List.map_cons, List.mem_cons] at hid
      exact ih hearlier (hid.resolve_left (Ne.symm hne))

theorem inline_leavesAlone (hl : LatestFirst r.latestFirst) (hview : r.Overlooks view)
    (hid : id ∈ r.latestFirst.map Prod.fst) : LeavesAlone view (r.inline id) :=
  remembering_leavesAlone hview hid (inlineAmong_leavesAlone hl hview List.suffix_rfl hid)

/-- The computation does not come across a node that was not built, whatever was resolved before: it
has nothing to report, and what is remembered of such a node stays as it is. -/
structure MeetsBuilt (r : Resolver) (x : StateM ResolverState α) : Prop where
  reports : LeavesAlone ResolverState.reports x
  others : ∀ id ∉ r.latestFirst.map Prod.fst, LeavesAlone (ResolverState.find? · id) x

theorem MeetsBuilt.of_leavesAlone {x : StateM ResolverState α}
    (h : ∀ {τ : Type} {view : ResolverState → τ}, r.Overlooks view → LeavesAlone view x) :
    r.MeetsBuilt x where
  reports := h fun _ _ _ _ ↦ rfl
  others id hid := h fun i hi s e ↦ by
    rw [find?_remember, if_neg]
    rintro rfl
    exact hid hi

theorem inline_meetsBuilt (hl : LatestFirst r.latestFirst) (hid : id ∈ r.latestFirst.map Prod.fst) :
    r.MeetsBuilt (r.inline id) :=
  .of_leavesAlone fun hview ↦ inline_leavesAlone hl hview hid

/-- **An expression that refers to built nodes is expanded** without coming across another one. -/
theorem expand_meetsBuilt (hl : LatestFirst r.latestFirst) {e : BuiltExpr}
    (he : ∀ p ∈ e.refs, p.node ∈ r.latestFirst.map Prod.fst) : r.MeetsBuilt (r.expand e) :=
  .of_leavesAlone fun hview ↦ e.mapRefsM_leavesAlone fun p hp ↦
    resolveBy_leavesAlone (inline_leavesAlone hl hview (he p hp))

end Resolver

/-! ## Unbuilt nodes that are met -/

/-- Of a list of nodes that are met, the unbuilt ones are noted, each where it comes first. -/
theorem Resolver.noteInline_eraseDups (r : Resolver) (l : List String) (id : String) :
    r.noteInline (l.filter (· ∉ r.latestFirst.map Prod.fst)).eraseDups id =
      ((l ++ [id]).filter (· ∉ r.latestFirst.map Prod.fst)).eraseDups := by
  rw [List.filter_append]
  by_cases hid : id ∈ r.latestFirst.map Prod.fst
  · rw [noteInline_of_mem hid, List.filter_cons_of_neg (by simpa using hid), List.filter_nil,
      List.append_nil]
  · rw [List.filter_cons_of_pos (by simpa using hid), List.filter_nil, eraseDups_concat, noteInline]
    simp only [hid, false_or, List.mem_eraseDups]

/-- **The unbuilt nodes that are met** are those at the starts of edges into the target. -/
theorem Graph.missingBy_eq (g : Graph) {r : Resolver}
    (hs : ∀ s ∈ r.sharing.nodes, s.node ∈ r.latestFirst.map Prod.fst) :
    g.missingBy r = ((g.targetEdges.filterMap (·.source.node?)).filter
      (· ∉ r.latestFirst.map Prod.fst)).eraseDups := by
  rw [missingBy, ← Resolver.noteEdge_unshared hs]
  -- The fold comes to the last edge last, hence the induction from the end of the list.
  induction g.targetEdges using List.reverseRecOn with
  | nil => rfl
  | append_singleton edges e ih =>
    rw [List.foldl_append, List.foldl_cons, List.foldl_nil, ih, Resolver.noteEdge,
      List.filterMap_append]
    cases hsource : e.source with
    | source | target =>
      rw [List.filterMap_cons_none (by rw [hsource]; rfl), List.filterMap_nil, List.append_nil]
    | node id =>
      rw [List.filterMap_cons_some (by rw [hsource]; rfl), List.filterMap_nil]
      exact r.noteInline_eraseDups _ id

/-! ## Which stage tells what -/

theorem Sanitation.code_of_mem_diagnostics {d : Document} {s : Schemas} {x : Diagnostic}
    (h : x ∈ diagnostics d s) : x.code = .orphanEdge ∨ x.code = .unresolvedHandle := by
  obtain ⟨e, _, he⟩ := List.mem_filterMap.mp h
  cases told_of_fault? he with
  | startNode | endNode => exact .inl rfl
  | startHandle | endHandle => exact .inr rfl

/-- What may be reported when a node is built. -/
inductive Node.Tells (node : Node) : Diagnostic → Prop
  | template (text : String) (fault : Template.Fault) :
    Tells node (.invalidTemplate node.id text fault.message)
  | constant (fault : Constant.Fault) :
    Tells node (.malformedConstant node.id fault.message node.config.compact)
  | unknown : Tells node (.unknownOperation node.id node.kind.name)
  | unavailable : Tells node (.unavailableOperation node.id node.kind.name)

theorem Rule.tells_of_mem_diagnostics {rule : Rule} {node : Node} {x : Diagnostic}
    (h : x ∈ rule.diagnostics node) : node.Tells x := by
  cases rule with
  | template =>
    rw [diagnostics] at h
    split at h
    · exact absurd h List.not_mem_nil
    · split at h
      · exact List.mem_singleton.mp h ▸ .template _ _
      · exact absurd h List.not_mem_nil
  | constant =>
    rw [diagnostics] at h
    split at h
    · exact absurd h List.not_mem_nil
    · exact List.mem_singleton.mp h ▸ .constant _
  | missing => exact List.mem_singleton.mp h ▸ .unknown
  | _ => exact absurd h List.not_mem_nil

namespace Node

variable {registry : Registry} {node : Node} {x : Diagnostic}

theorem tells_of_mem_buildDiagnostics (h : x ∈ node.buildDiagnostics registry) : node.Tells x := by
  rw [buildDiagnostics] at h
  split at h
  · exact Rule.tells_of_mem_diagnostics h
  · exact List.mem_singleton.mp h ▸ .unavailable

theorem Tells.code (h : node.Tells x) :
    x.code = .unknownOperation ∨ x.code = .invalidTemplate ∨ x.code = .malformedConstant := by
  cases h with
  | template => exact .inr (.inl rfl)
  | constant => exact .inr (.inr rfl)
  | unknown | unavailable => exact .inl rfl

/-- It is told under the id of the node. -/
theorem Tells.subject (h : node.Tells x) : x.subject = node.id := by
  cases h <;> rfl

end Node

theorem UnbuiltNode.code_diagnostic {u : UnbuiltNode}
    (h : ∀ missing, u.reason ≠ .missingInput missing) :
    u.diagnostic.code = .cyclicDependency ∨ u.diagnostic.code = .feederUnbuilt := by
  rw [diagnostic]
  split
  · exact .inl rfl
  · next hreason => exact absurd hreason (h _)
  · exact .inr rfl

/-! ## A whole compilation -/

/-- The ids of the nodes that were not built. -/
def Compilation.unbuiltIds (x : Compilation) : List String := x.unbuilt.map (·.node)

namespace Compiler

variable (c : Compiler) (d : Document)

theorem mem_latestFirst_ids_iff {id : String} :
    id ∈ (c.resolver d).latestFirst.map Prod.fst ↔ id ∈ (c.stages d).graph.schedule := by
  rw [resolver, Resolver.of, List.map_reverse, List.mem_reverse, stages_output]
  exact iff_of_eq (congrArg (id ∈ ·) (Graph.order_build _ _))

theorem unbuiltIds_compile : (c.compile d).unbuiltIds =
    (c.stages d).graph.ids.filter (· ∉ (c.stages d).graph.schedule) := by
  rw [Compilation.unbuiltIds, unbuilt_compile, stages_output]
  exact Graph.map_node_unbuilt _ _

theorem mem_unbuiltIds {id : String} : id ∈ (c.compile d).unbuiltIds ↔
    id ∈ (c.stages d).graph.ids ∧ id ∉ (c.stages d).graph.schedule := by
  rw [unbuiltIds_compile, List.mem_filter, decide_eq_true_iff]

/-- Where an edge of the graph starts at an id, there is a node. -/
theorem mem_ids_of_source {e : Edge} (he : e ∈ (c.stages d).graph.edges) {id : String}
    (hs : e.source = .node id) : id ∈ (c.stages d).graph.ids := by
  have hstands := (c.stands_of_mem_edges d he).1
  rw [hs] at hstands
  exact Graph.mem_ids_ofDocument.mpr hstands

/-- Where an edge of the graph ends at an id, there is a node. -/
theorem mem_ids_of_target {e : Edge} (he : e ∈ (c.stages d).graph.edges) {id : String}
    (ht : e.target = .node id) : id ∈ (c.stages d).graph.ids := by
  have hstands := (c.stands_of_mem_edges d he).2
  rw [ht] at hstands
  exact Graph.mem_ids_ofDocument.mpr hstands

theorem not_lacksInput (id : String) : ¬ (c.stages d).graph.LacksInput id := by
  rintro ⟨e, he, _, i, hs, hi⟩
  exact hi (c.mem_ids_of_source d he hs)

/-- **Unbuilt are the nodes on cycles and those behind them.** -/
theorem mem_unbuiltIds_iff {id : String} : id ∈ (c.compile d).unbuiltIds ↔
    ∃ a, (c.stages d).graph.Cyclic a ∧ Relation.ReflTransGen (c.stages d).graph.Link a id := by
  have hbuilt := @Graph.mem_schedule_iff (c.stages d).graph id (Graph.nodup_ids_ofDocument _)
  rw [mem_unbuiltIds, hbuilt]
  constructor
  · rintro ⟨hid, h⟩
    by_contra hno
    refine h ⟨hid, fun a hway ↦ ⟨fun hcycle ↦ hno ⟨a, hcycle, hway⟩, c.not_lacksInput d a⟩⟩
  · rintro ⟨a, hcycle, hway⟩
    refine ⟨?_, fun h ↦ (h.2 a hway).1 hcycle⟩
    -- A link leads to the node, on the way from the cycle or on the cycle itself.
    rcases Relation.ReflTransGen.cases_tail hway with rfl | ⟨b, _, hlink⟩
    · obtain ⟨b, _, hlink⟩ := Relation.TransGen.tail'_iff.mp hcycle
      exact hlink.2.1
    · exact hlink.2.1

theorem reason_ne_missingInput {u : UnbuiltNode} (hu : u ∈ (c.compile d).unbuilt)
    (missing : String) : u.reason ≠ .missingInput missing := by
  rw [unbuilt_compile, stages_output] at hu
  obtain ⟨id, _, rfl⟩ := List.mem_map.mp hu
  exact Graph.unbuiltReason_ne (c.not_lacksInput d id) missing

/-- Of unbuilt nodes that are used no stage before the last tells anything. -/
theorem code_of_mem_buildDiagnostics {x : Diagnostic} (hx : x ∈ (c.stages d).buildDiagnostics) :
    x.code ≠ .missingInput ∧ x.code ≠ .unbuildableReference := by
  rw [stages_buildDiagnostics, Graph.buildDiagnostics] at hx
  rcases List.mem_append.mp hx with hx | hx
  · obtain ⟨node, _, hx⟩ := List.mem_flatMap.mp hx
    rcases (Node.tells_of_mem_buildDiagnostics hx).code with h | h | h <;> rw [h] <;> decide
  · obtain ⟨u, hu, rfl⟩ := List.mem_map.mp hx
    have hreason := c.reason_ne_missingInput d (u := u) hu
    rcases UnbuiltNode.code_diagnostic hreason with h | h <;> rw [h] <;> decide

theorem code_of_mem_sanitationDiagnostics {x : Diagnostic}
    (hx : x ∈ (c.stages d).sanitationDiagnostics) :
    x.code ≠ .missingInput ∧ x.code ≠ .unbuildableReference := by
  rcases Sanitation.code_of_mem_diagnostics hx with h | h <;> rw [h] <;> decide

/-- The unbuilt nodes that edges into the target start at, each where it comes first. -/
def unbuiltStarts : List String :=
  (((c.stages d).graph.targetEdges.filterMap (·.source.node?)).filter
    (· ∈ (c.compile d).unbuiltIds)).eraseDups

theorem missingBy_eq_unbuiltStarts :
    (c.stages d).graph.missingBy (c.resolver d) = c.unbuiltStarts d := by
  rw [Graph.missingBy_eq _ fun s ↦ c.mem_latestFirst_of_shared d, unbuiltStarts]
  refine congrArg List.eraseDups (List.filter_congr fun id hid ↦ decide_eq_decide.mpr ?_)
  obtain ⟨e, he, hs⟩ := List.mem_filterMap.mp hid
  rw [mem_latestFirst_ids_iff, mem_unbuiltIds, and_iff_right]
  exact c.mem_ids_of_source d (List.mem_filter.mp he).1 (Endpoint.node?_eq_some_iff.mp hs)

theorem withCode_missingInput : (c.compile d).diagnostics.withCode .missingInput = [] := by
  rw [diagnostics_compile, Diagnostics.withCode, List.filter_eq_nil_iff]
  intro x hx hcode
  have hcode := of_decide_eq_true hcode
  rcases List.mem_append.mp hx with hx | hx
  · rcases List.mem_append.mp hx with hx | hx
    · exact (c.code_of_mem_sanitationDiagnostics d hx).1 hcode
    · exact (c.code_of_mem_buildDiagnostics d hx).1 hcode
  · obtain ⟨id, _, rfl⟩ := List.mem_map.mp hx
    cases hcode

theorem withCode_unbuildableReference :
    (c.compile d).diagnostics.withCode .unbuildableReference =
      (c.unbuiltStarts d).map .unbuildableReference := by
  rw [diagnostics_compile, Diagnostics.withCode, List.filter_append, List.filter_append,
    missingBy_eq_unbuiltStarts, List.filter_eq_nil_iff.mpr, List.filter_eq_nil_iff.mpr,
    List.filter_eq_self.mpr, List.nil_append, List.nil_append]
  · exact List.forall_mem_map.mpr fun _ _ ↦ decide_eq_true rfl
  · exact fun x hx hcode ↦ (c.code_of_mem_buildDiagnostics d hx).2 (of_decide_eq_true hcode)
  · exact fun x hx hcode ↦ (c.code_of_mem_sanitationDiagnostics d hx).2 (of_decide_eq_true hcode)

theorem ofEdge_of_mem_unbuiltIds {e : Edge} {id : String} (hid : id ∈ (c.compile d).unbuiltIds)
    (hs : e.source = .node id) : (c.resolver d).ofEdge e = .null := by
  have hnot : id ∉ (c.resolver d).latestFirst.map Prod.fst := fun h ↦
    ((c.mem_unbuiltIds d).mp hid).2 ((c.mem_latestFirst_ids_iff d).mp h)
  -- Only built nodes are shared, so what stands for the node is its value.
  have hplain : (c.resolver d).sharing.varName? id = none := by
    by_contra hsome
    obtain ⟨varName, hv⟩ := Option.ne_none_iff_exists'.mp hsome
    obtain ⟨n, hn, rfl, _⟩ := Sharing.exists_of_varName? hv
    exact hnot (c.mem_latestFirst_of_shared d hn)
  rw [Resolver.ofEdge, hs]
  exact (Resolver.use_of_varName?_eq_none hplain).trans (Resolver.value_of_not_mem hnot)

/-- The nulls of unbuilt nodes are where they have to be, and all of them are told. -/
structure ConfinesNulls : Prop where
  /-- No node is left out because an input is not there. -/
  reason : ∀ u ∈ (c.compile d).unbuilt, ∀ missing, u.reason ≠ .missingInput missing
  missingInput : (c.compile d).diagnostics.withCode .missingInput = []
  /-- Unbuilt are the nodes on cycles and those behind them. -/
  unbuilt : ∀ id, id ∈ (c.compile d).unbuiltIds ↔
    ∃ a, (c.stages d).graph.Cyclic a ∧ Relation.ReflTransGen (c.stages d).graph.Link a id
  /-- The mapping of an edge from an unbuilt node is null. -/
  mappings : List.Forall₂ (fun e m ↦ m.targetPath = Handle.cleanPath e.targetPath ∧
      ∀ id ∈ (c.compile d).unbuiltIds, e.source = .node id → m.expression = .null)
    (c.stages d).graph.targetEdges (c.compile d).output.mappings
  /-- Each unbuilt node that such an edge starts at is told of once. -/
  told : (c.compile d).diagnostics.withCode .unbuildableReference =
    (c.unbuiltStarts d).map .unbuildableReference
  /-- Inlining a built node, after whatever else, meets built nodes only. -/
  inline : ∀ id ∈ (c.stages d).output.order,
    (c.resolver d).MeetsBuilt ((c.resolver d).inline id)
  expand : ∀ p ∈ (c.stages d).output.built, (c.resolver d).MeetsBuilt ((c.resolver d).expand p.2)
  /-- What the references of the output lead on to is built. -/
  cited : ∀ ref, (c.compile d).output.Cites ref → ref.node ∈ (c.stages d).output.order
  shared : (c.resolver d).MeetsBuilt <| (c.stages d).sharing.nodes.mapM
    ((c.stages d).graph.sharedExpression c.registry (c.resolver d))

/-- **Unbuilt nodes leave nulls in mappings of their own and nowhere else.** -/
theorem compile_confinesNulls : c.ConfinesNulls d where
  reason _ := c.reason_ne_missingInput d
  missingInput := c.withCode_missingInput d
  unbuilt _ := c.mem_unbuiltIds_iff d
  mappings := by
    rw [mappings_compile, Graph.mappingsBy, List.forall₂_map_right_iff, List.forall₂_same]
    exact fun e _ ↦ ⟨rfl, fun id hid hs ↦ c.ofEdge_of_mem_unbuiltIds d hid hs⟩
  told := c.withCode_unbuildableReference d
  inline id hid := by
    refine Resolver.inline_meetsBuilt (c.resolver_latestFirst d) ?_
    rwa [mem_latestFirst_ids_iff, ← Graph.order_build _ c.registry]
  expand p hp := by
    have hl := c.resolver_latestFirst d
    have hmem : p ∈ (c.resolver d).latestFirst := List.mem_reverse.mpr hp
    exact Resolver.expand_meetsBuilt hl fun q hq ↦ hl.refs_mem (n := p.1) hmem hq
  cited ref href := by
    obtain ⟨s, hs, hnames⟩ := c.exists_shared_of_cites d href
    exact hnames.1 ▸ (c.shared_sublist_order d).subset (List.mem_map_of_mem hs)
  shared := .of_leavesAlone fun hview ↦ .mapM _ fun s hs ↦
    (Resolver.inline_leavesAlone (c.resolver_latestFirst d) hview
      (c.mem_latestFirst_of_shared d hs)).bind fun _ ↦ .pure _ _

end Compiler

end MappingGraph
