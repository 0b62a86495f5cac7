import MappingGraph.Proofs.Graph.Reach
import MappingGraph.Proofs.Unbuilt

/-!
# Why nodes are left unbuilt

Every node outside of the order has one reason and one diagnostic.  A node on a cycle is left out
for that; any other for the first input from an id that names no node; and if there is none, for the
first input from a node that was left out itself.  There always is such an input, because a node
with all its inputs built is built (`Graph.mem_schedule_of_inputIds`), so that the last reason never
has to make up an id.

The last reason puts the blame on another node, which may pass it on.  It cannot go round: whoever
passes it on is not on a cycle.  Since there are finitely many nodes, the blame comes to rest at a
cycle or at an id that names no node.  `Graph.build_explainsUnbuilt` has all of this.
-/

set_option autoImplicit false

namespace MappingGraph

namespace Graph

variable {g : Graph} {registry : Registry} {id i a b : String}

/-! ## Cycles -/

theorem mem_dependents_iff (ha : a ∈ g.ids) :
    b ∈ g.dependents a ↔ Relation.TransGen g.Link a b := by
  rw [dependents, mem_gather_iff]
  constructor
  · intro h
    induction h with
    | start hc hs => exact .single (link_iff.mpr ⟨ha, hc, (mem_consumers_iff.mp hs).1⟩)
    | step hreached hc hb ih =>
      exact ih.tail (link_iff.mpr ⟨hreached.mem, hc, (mem_consumers_iff.mp hb).1⟩)
  · intro h
    induction h with
    | single hlink =>
      obtain ⟨_, hb, hin⟩ := link_iff.mp hlink
      exact .start hb (mem_consumers_iff.mpr ⟨hin, hb⟩)
    | tail _ hlink ih =>
      obtain ⟨_, hb, hin⟩ := link_iff.mp hlink
      exact .step ih hb (mem_consumers_iff.mpr ⟨hin, hb⟩)

theorem Cyclic.mem_ids (h : g.Cyclic id) : id ∈ g.ids := by
  obtain ⟨_, hlink, _⟩ := Relation.TransGen.head'_iff.mp h
  exact hlink.1

/-- The search for a cycle finds one exactly if there is one. -/
theorem onCycle_iff : g.onCycle id = true ↔ g.Cyclic id := by
  rw [onCycle, decide_eq_true_iff]
  constructor
  · intro h
    exact (mem_dependents_iff (mem_gather_iff.mp h).mem).mp h
  · intro h
    exact (mem_dependents_iff h.mem_ids).mpr h

/-! ## The first input of a sort -/

/-- Of the edges into the node that start at an id of the given sort, the first starts at this
one. -/
def FirstFrom (g : Graph) (p : String → Prop) (id i : String) : Prop :=
  ∃ before e after, g.edges = before ++ e :: after ∧ e.target = .node id ∧ e.source = .node i ∧
    p i ∧ ∀ f ∈ before, f.target = .node id → ∀ j, f.source = .node j → ¬ p j

theorem FirstFrom.mem_inputIds {p : String → Prop} (h : g.FirstFrom p id i) :
    i ∈ g.inputIds id := by
  obtain ⟨before, e, after, hedges, ht, hs, _⟩ := h
  exact mem_inputIds_iff.mpr ⟨e, hedges ▸ List.mem_append_right _ List.mem_cons_self, hs, ht⟩

theorem FirstFrom.holds {p : String → Prop} (h : g.FirstFrom p id i) : p i := by
  obtain ⟨_, _, _, _, _, _, hi, _⟩ := h
  exact hi

theorem FirstFrom.imp {p q : String → Prop} (hpq : ∀ j ∈ g.inputIds id, p j ↔ q j)
    (h : g.FirstFrom p id i) : g.FirstFrom q id i := by
  obtain ⟨before, e, after, hedges, ht, hs, hi, hfirst⟩ := h
  have hmem : ∀ f ∈ before ++ [e], ∀ j, f.target = .node id → f.source = .node j →
      j ∈ g.inputIds id := by
    intro f hf j hft hfs
    refine mem_inputIds_iff.mpr ⟨f, ?_, hfs, hft⟩
    rw [hedges, List.append_cons]
    exact List.mem_append_left _ hf
  refine ⟨before, e, after, hedges, ht, hs, ?_, fun f hf hft j hfs hj ↦ ?_⟩
  · exact (hpq i (hmem e (List.mem_append_right _ (List.mem_singleton_self e)) i ht hs)).mp hi
  · exact hfirst f hf hft j hfs ((hpq j (hmem f (List.mem_append_left _ hf) j hft hfs)).mpr hj)

/-- The first input of a sort is what looking through the inputs finds. -/
theorem find?_inputIds_eq_some_iff {p : String → Bool} :
    (g.inputIds id).find? p = some i ↔ g.FirstFrom (p · = true) id i := by
  have hsource : ∀ f : Edge,
      f.source.node?.any p = true ↔ ∃ j, f.source = .node j ∧ p j = true := by
    intro f
    cases f.source <;> simp [Endpoint.node?]
  rw [inputIds, incoming, List.find?_filterMap, List.find?_filter, Option.bind_eq_some_iff]
  simp only [List.find?_eq_some_iff_append, FirstFrom, hsource, decide_eq_true_eq,
    Bool.not_eq_true', decide_eq_false_iff_not]
  constructor
  · rintro ⟨e, ⟨⟨ht, j, hs, hj⟩, before, after, hedges, hfirst⟩, hi⟩
    rw [hs] at hi
    obtain rfl : j = i := Option.some.inj hi
    exact ⟨before, e, after, hedges, ht, hs, hj, fun f hf hft k hfs hk ↦
      hfirst f hf ⟨hft, k, hfs, hk⟩⟩
  · rintro ⟨before, e, after, hedges, ht, hs, hi, hfirst⟩
    refine ⟨e, ⟨⟨ht, i, hs, hi⟩, before, after, hedges, ?_⟩, by rw [hs]; rfl⟩
    rintro f hf ⟨hft, j, hfs, hj⟩
    exact hfirst f hf hft j hfs hj

theorem missingInput?_eq_some_iff :
    g.missingInput? id = some i ↔ g.FirstFrom (· ∉ g.ids) id i := by
  rw [missingInput?, find?_inputIds_eq_some_iff]
  have hsort : ∀ j, (!g.hasNode j) = true ↔ j ∉ g.ids := by
    intro j
    rw [mem_ids_iff, Bool.not_eq_true', Bool.not_eq_true]
  exact ⟨.imp fun j _ ↦ hsort j, .imp fun j _ ↦ (hsort j).symm⟩

/-! ## Reasons -/

theorem mem_unbuilt_iff {built : List String} {reason : UnbuiltReason} :
    ⟨id, reason⟩ ∈ g.unbuilt built ↔
      id ∈ g.ids ∧ id ∉ built ∧ g.unbuiltReason built id = reason := by
  rw [unbuilt, List.mem_map]
  constructor
  · rintro ⟨j, hj, heq⟩
    obtain ⟨rfl, rfl⟩ := UnbuiltNode.mk.inj heq
    obtain ⟨hids, hnot⟩ := List.mem_filter.mp hj
    exact ⟨hids, of_decide_eq_true hnot, rfl⟩
  · rintro ⟨hids, hnot, rfl⟩
    exact ⟨id, List.mem_filter.mpr ⟨hids, decide_eq_true hnot⟩, rfl⟩

theorem not_mem_schedule_of_cyclic (hg : g.ids.Nodup) (h : g.Cyclic id) : id ∉ g.schedule :=
  fun hid ↦ (((mem_schedule_iff hg).mp hid).2 id .refl).1 h

theorem not_mem_schedule_of_lacksInput (hg : g.ids.Nodup) (h : g.LacksInput id) :
    id ∉ g.schedule :=
  fun hid ↦ (((mem_schedule_iff hg).mp hid).2 id .refl).2 h

/-- **A node that was left out has an input that was left out or is not there**: the search for
one does not fail. -/
theorem exists_find?_of_not_mem_schedule (hg : g.ids.Nodup) (hids : id ∈ g.ids)
    (hnot : id ∉ g.schedule) : ∃ i, (g.inputIds id).find? (· ∉ g.schedule) = some i := by
  by_contra hnone
  refine hnot (mem_schedule_of_inputIds hg hids fun i hi ↦ ?_)
  by_contra hi'
  have hsome : ((g.inputIds id).find? (· ∉ g.schedule)).isSome := by
    rw [List.find?_isSome]
    exact ⟨i, hi, decide_eq_true hi'⟩
  exact hnone (Option.isSome_iff_exists.mp hsome)

theorem reason_cycle_iff (hg : g.ids.Nodup) :
    ⟨id, .cycle⟩ ∈ g.unbuilt g.schedule ↔ g.Cyclic id := by
  rw [mem_unbuilt_iff, unbuiltReason]
  constructor
  · rintro ⟨_, _, hreason⟩
    split at hreason
    · next h => exact onCycle_iff.mp h
    · split at hreason <;> cases hreason
  · intro h
    exact ⟨h.mem_ids, not_mem_schedule_of_cyclic hg h, if_pos (onCycle_iff.mpr h)⟩

theorem reason_missingInput_iff (hg : g.ids.Nodup) :
    ⟨id, .missingInput i⟩ ∈ g.unbuilt g.schedule ↔
      id ∈ g.ids ∧ ¬ g.Cyclic id ∧ g.FirstFrom (· ∉ g.ids) id i := by
  rw [mem_unbuilt_iff, unbuiltReason, ← onCycle_iff, ← missingInput?_eq_some_iff]
  constructor
  · rintro ⟨hids, _, hreason⟩
    split at hreason
    · cases hreason
    · next hcycle =>
      split at hreason
      · next j hj =>
        obtain rfl : j = i := UnbuiltReason.missingInput.inj hreason
        exact ⟨hids, hcycle, hj⟩
      · cases hreason
  · rintro ⟨hids, hcycle, hmissing⟩
    refine ⟨hids, not_mem_schedule_of_lacksInput hg ?_, ?_⟩
    · by_contra h
      rw [missingInput?_eq_none_iff.mpr h] at hmissing
      cases hmissing
    · rw [if_neg hcycle, hmissing]

/-- Where no input is missing, the search for one that was left out is about nodes. -/
theorem find?_unbuilt_eq_some_iff (hlacks : ¬ g.LacksInput id) :
    (g.inputIds id).find? (· ∉ g.schedule) = some i ↔
      g.FirstFrom (fun j ↦ j ∈ g.ids ∧ j ∉ g.schedule) id i := by
  have hsort : ∀ j ∈ g.inputIds id,
      decide (j ∉ g.schedule) = true ↔ j ∈ g.ids ∧ j ∉ g.schedule := by
    intro j hj
    have hids : j ∈ g.ids := by
      by_contra hj'
      exact hlacks (lacksInput_iff.mpr ⟨j, hj, hj'⟩)
    rw [decide_eq_true_iff, and_iff_right hids]
  rw [find?_inputIds_eq_some_iff]
  exact ⟨.imp hsort, .imp fun j hj ↦ (hsort j hj).symm⟩

theorem reason_feederUnbuilt_iff (hg : g.ids.Nodup) :
    ⟨id, .feederUnbuilt i⟩ ∈ g.unbuilt g.schedule ↔
      id ∈ g.ids ∧ ¬ g.Cyclic id ∧ ¬ g.LacksInput id ∧
        g.FirstFrom (fun j ↦ j ∈ g.ids ∧ j ∉ g.schedule) id i := by
  rw [mem_unbuilt_iff, unbuiltReason, ← onCycle_iff]
  constructor
  · rintro ⟨hids, hnot, hreason⟩
    obtain ⟨j, hj⟩ := exists_find?_of_not_mem_schedule hg hids hnot
    split at hreason
    · cases hreason
    · next hcycle =>
      split at hreason
      · cases hreason
      · next hmissing =>
        have hlacks := missingInput?_eq_none_iff.mp hmissing
        rw [hj] at hreason
        obtain rfl : j = i := UnbuiltReason.feederUnbuilt.inj hreason
        exact ⟨hids, hcycle, hlacks, (find?_unbuilt_eq_some_iff hlacks).mp hj⟩
  · rintro ⟨hids, hcycle, hlacks, hfirst⟩
    refine ⟨hids, fun hid ↦ ?_, ?_⟩
    · exact hfirst.holds.2 (mem_schedule_of_mem_inputIds hg hid hfirst.mem_inputIds)
    · rw [if_neg hcycle, missingInput?_eq_none_iff.mpr hlacks,
        (find?_unbuilt_eq_some_iff hlacks).mpr hfirst]
      rfl

/-! ## Blame -/

/-- The one node was left out because of the other. -/
def Blames (g : Graph) (a b : String) : Prop := ⟨a, .feederUnbuilt b⟩ ∈ g.unbuilt g.schedule

theorem Blames.link (hg : g.ids.Nodup) (h : g.Blames a b) : g.Link b a := by
  obtain ⟨ha, _, _, hfirst⟩ := (reason_feederUnbuilt_iff hg).mp h
  exact link_iff.mpr ⟨hfirst.holds.1, ha, hfirst.mem_inputIds⟩

theorem link_of_transGen_blames (hg : g.ids.Nodup)
    (h : Relation.TransGen (fun a b ↦ g.Blames b a) a b) : Relation.TransGen g.Link a b :=
  Relation.TransGen.mono (fun _ _ hblames ↦ Blames.link hg hblames) _ _ h

/-- **Blame does not go round**: the last one to pass it on would lie on a cycle. -/
theorem not_transGen_blames_self (hg : g.ids.Nodup) :
    ¬ Relation.TransGen (fun a b ↦ g.Blames b a) a a := by
  intro h
  obtain ⟨b, _, hblames⟩ := Relation.TransGen.tail'_iff.mp h
  exact ((reason_feederUnbuilt_iff hg).mp hblames).2.1 (link_of_transGen_blames hg h)

/-- **Blame is passed on finitely often.** -/
theorem wellFounded_blames (hg : g.ids.Nodup) : WellFounded fun a b ↦ g.Blames b a := by
  have hfinite : Finite {a // a ∈ g.ids} := g.ids.finite_toSet.to_subtype
  have hirrefl : Std.Irrefl fun a b : {a // a ∈ g.ids} ↦
      Relation.TransGen (fun a b ↦ g.Blames b a) a.1 b.1 :=
    ⟨fun _ ↦ not_transGen_blames_self hg⟩
  have htrans : IsTrans {a // a ∈ g.ids} fun a b ↦
      Relation.TransGen (fun a b ↦ g.Blames b a) a.1 b.1 :=
    ⟨fun _ _ _ ↦ Relation.TransGen.trans⟩
  have hwf := Finite.wellFounded_of_trans_of_irrefl fun a b : {a // a ∈ g.ids} ↦
    Relation.TransGen (fun a b ↦ g.Blames b a) a.1 b.1
  -- Both ends of a blame are nodes of the graph, of which there are finitely many.
  have hnode : ∀ a (ha : a ∈ g.ids), Acc (fun a b ↦ g.Blames b a) a := by
    intro a ha
    refine hwf.induction (C := fun a ↦ Acc (fun a b ↦ g.Blames b a) a.1) ⟨a, ha⟩ fun a ih ↦ ?_
    exact ⟨a.1, fun b hb ↦ ih ⟨b, (hb.link hg).1⟩ (.single hb)⟩
  exact ⟨fun a ↦ ⟨a, fun b hb ↦ hnode b (hb.link hg).1⟩⟩

/-- **The blame for an unbuilt node comes to rest** at a cycle or at a missing input. -/
theorem exists_root_of_unbuilt (hg : g.ids.Nodup) (hids : id ∈ g.ids) (hnot : id ∉ g.schedule) :
    ∃ root ∈ g.unbuilt g.schedule, Relation.ReflTransGen g.Blames id root.node ∧
      (root.reason = .cycle ∨ ∃ i, root.reason = .missingInput i) := by
  induction id using (wellFounded_blames hg).induction with
  | _ id ih =>
    have hmem : ⟨id, g.unbuiltReason g.schedule id⟩ ∈ g.unbuilt g.schedule :=
      mem_unbuilt_iff.mpr ⟨hids, hnot, rfl⟩
    cases hreason : g.unbuiltReason g.schedule id with
    | cycle => exact ⟨_, hmem, .refl, .inl hreason⟩
    | missingInput i => exact ⟨_, hmem, .refl, .inr ⟨i, hreason⟩⟩
    | feederUnbuilt i =>
      rw [hreason] at hmem
      have hblames : g.Blames id i := hmem
      obtain ⟨hi, hnot⟩ := ((reason_feederUnbuilt_iff hg).mp hmem).2.2.2.holds
      obtain ⟨root, hroot, hway, hends⟩ := ih i hblames hi hnot
      exact ⟨root, hroot, .head hblames hway, hends⟩

end Graph

/-! ## Diagnostics -/

theorem UnbuiltNode.subject_diagnostic (u : UnbuiltNode) : u.diagnostic.subject = u.node := by
  rw [diagnostic]
  split <;> rfl

namespace Graph

variable {g : Graph} {registry : Registry}

/-- What is told of the nodes with some ids is told under these ids. -/
theorem subject_mem_order {order : List String} {x : Diagnostic}
    (h : x ∈ (order.filterMap g.node?).flatMap (·.buildDiagnostics registry)) :
    x.subject ∈ order := by
  obtain ⟨node, hnode, hx⟩ := List.mem_flatMap.mp h
  obtain ⟨id, hid, hfind⟩ := List.mem_filterMap.mp hnode
  rw [(Node.tells_of_mem_buildDiagnostics hx).subject, id_of_node? hfind]
  exact hid

theorem filter_subject_eq_nil {order : List String} {id : String} (h : id ∉ order) :
    ((order.filterMap g.node?).flatMap (·.buildDiagnostics registry)).filter (·.subject = id) = [] :=
  List.filter_eq_nil_iff.mpr fun _ hx heq ↦ h (of_decide_eq_true heq ▸ subject_mem_order hx)

theorem filter_unbuilt_node (hg : g.ids.Nodup) {built : List String} {u : UnbuiltNode}
    (hu : u ∈ g.unbuilt built) : (g.unbuilt built).filter (·.node = u.node) = [u] := by
  obtain ⟨id, hid, rfl⟩ := List.mem_map.mp hu
  have hnode : (fun v : UnbuiltNode ↦ decide (v.node = id)) ∘
      (fun i ↦ ⟨i, g.unbuiltReason built i⟩) = fun i ↦ decide (i = id) := rfl
  rw [unbuilt, List.filter_map, hnode, List.filter_eq, List.count_eq_one_of_mem (hg.filter _) hid]
  rfl

/-- **Of every unbuilt node is told once.** -/
theorem filter_buildDiagnostics (hg : g.ids.Nodup) {u : UnbuiltNode}
    (hu : u ∈ g.unbuilt g.schedule) :
    (g.buildDiagnostics registry).filter (·.subject = u.node) = [u.diagnostic] := by
  have hnot : u.node ∉ g.schedule := (mem_unbuilt_iff.mp hu).2.1
  have hsubject : (fun x : Diagnostic ↦ decide (x.subject = u.node)) ∘ UnbuiltNode.diagnostic =
      fun v ↦ decide (v.node = u.node) := by
    funext v
    rw [Function.comp_apply, UnbuiltNode.subject_diagnostic]
  rw [buildDiagnostics, List.filter_append, List.filter_map, hsubject, filter_unbuilt_node hg hu,
    filter_subject_eq_nil hnot, List.nil_append, List.map_singleton]

/-- **Of a built node is told what there is to tell of it**, and nothing else. -/
theorem filter_buildDiagnostics_of_mem_schedule (hg : g.ids.Nodup) {id : String} {node : Node}
    (hid : id ∈ g.schedule) (hnode : g.node? id = some node) :
    (g.buildDiagnostics registry).filter (·.subject = id) = node.buildDiagnostics registry := by
  have hunbuilt :
      ((g.unbuilt g.schedule).map UnbuiltNode.diagnostic).filter (·.subject = id) = [] := by
    refine List.filter_eq_nil_iff.mpr fun x hx heq ↦ ?_
    obtain ⟨u, hu, rfl⟩ := List.mem_map.mp hx
    rw [UnbuiltNode.subject_diagnostic, decide_eq_true_iff] at heq
    exact (mem_unbuilt_iff.mp hu).2.1 (heq ▸ hid)
  have hself : (node.buildDiagnostics registry).filter (·.subject = id) =
      node.buildDiagnostics registry := List.filter_eq_self.mpr fun x hx ↦ by
    rw [(Node.tells_of_mem_buildDiagnostics hx).subject, id_of_node? hnode, decide_eq_true rfl]
  have hnodup := (schedule_readyOrder hg).nodup
  rw [buildDiagnostics, List.filter_append, hunbuilt, List.append_nil]
  -- the node stands at one place of the order
  obtain ⟨front, back, hsplit⟩ := List.append_of_mem hid
  rw [hsplit] at hnodup ⊢
  obtain ⟨hfront, hback⟩ : id ∉ front ∧ id ∉ back := by
    have hmiddle := List.nodup_middle.mp hnodup
    simpa using (List.nodup_cons.mp hmiddle).1
  rw [List.filterMap_append, List.filterMap_cons_some hnode, List.flatMap_append, List.flatMap_cons,
    List.filter_append, List.filter_append, filter_subject_eq_nil hfront, filter_subject_eq_nil hback,
    hself, List.nil_append, List.append_nil]

/-! ## Building -/

/-- What building says of the nodes that it leaves out. -/
structure ExplainsUnbuilt (g : Graph) (out : BuildOutput) (told : List Diagnostic) : Prop where
  /-- They are the nodes outside of the order, as the graph lists them. -/
  nodes : out.unbuilt.map (·.node) = g.ids.filter (· ∉ out.order)
  nodup : (out.unbuilt.map (·.node)).Nodup
  /-- Of each there is one diagnostic. -/
  told : ∀ u ∈ out.unbuilt, told.filter (·.subject = u.node) = [u.diagnostic]
  cycle : ∀ id, ⟨id, .cycle⟩ ∈ out.unbuilt ↔ g.Cyclic id
  missingInput : ∀ id i, ⟨id, .missingInput i⟩ ∈ out.unbuilt ↔
    id ∈ g.ids ∧ ¬ g.Cyclic id ∧ g.FirstFrom (· ∉ g.ids) id i
  feederUnbuilt : ∀ id i, ⟨id, .feederUnbuilt i⟩ ∈ out.unbuilt ↔
    id ∈ g.ids ∧ ¬ g.Cyclic id ∧ ¬ g.LacksInput id ∧
      g.FirstFrom (fun j ↦ j ∈ g.ids ∧ j ∉ out.order) id i
  /-- Going from a node to the one that it was left out for ends. -/
  ends : WellFounded fun i id ↦ ⟨id, .feederUnbuilt i⟩ ∈ out.unbuilt
  /-- It ends at a cycle or at a missing input. -/
  roots : ∀ u ∈ out.unbuilt, ∃ root ∈ out.unbuilt,
    Relation.ReflTransGen (fun id i ↦ ⟨id, .feederUnbuilt i⟩ ∈ out.unbuilt) u.node root.node ∧
      (root.reason = .cycle ∨ ∃ i, root.reason = .missingInput i)

/-- **Every node that is left out is explained**, for every document, clean or not, and every
registry. -/
theorem build_explainsUnbuilt (d : Document) (registry : Registry) :
    (ofDocument d).ExplainsUnbuilt ((ofDocument d).build registry)
      ((ofDocument d).buildDiagnostics registry) := by
  have hg := nodup_ids_ofDocument d
  have hnodes := map_node_unbuilt (ofDocument d) (ofDocument d).schedule
  constructor
  · rw [order_build]
    exact hnodes
  · exact hnodes ▸ hg.filter _
  · exact fun u hu ↦ filter_buildDiagnostics hg hu
  · exact fun id ↦ reason_cycle_iff hg
  · exact fun id i ↦ reason_missingInput_iff hg
  · rw [order_build]
    exact fun id i ↦ reason_feederUnbuilt_iff hg
  · exact wellFounded_blames hg
  · intro u hu
    obtain ⟨hids, hnot, _⟩ := mem_unbuilt_iff.mp hu
    exact exists_root_of_unbuilt hg hids hnot

end Graph

end MappingGraph
