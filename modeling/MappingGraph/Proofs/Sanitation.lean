import MappingGraph.Proofs.Assembly

/-!
# What sanitation keeps

`Sanitation.Stands` says of an edge, without any order of tests, that nothing is wrong with it: the
nodes at its ends exist, and its handles name something in the schemas at its ends.
`Sanitation.Told` says which diagnostic belongs to an edge that does not stand.  The two describe
sanitation completely (`Sanitation.Filters`): it leaves the edges that stand, in their order, tells of
each other edge once, in the same order, and touches nothing else.

What is wrong with an edge depends on the nodes and the schemas of the document and not on its other
edges.  Hence nothing is found when a document is sanitized again, and a compilation, which begins
with sanitation, goes the same way whether this has been done before or not.  The last theorem has
all of it.
-/

set_option autoImplicit false

namespace MappingGraph

/-- The end of an edge that stands for the schema of a side. -/
def Side.endpoint : Side → Endpoint
  | .source => .source
  | .target => .target

/-- The schema of a side. -/
def Schemas.ofSide (s : Schemas) : Side → Json
  | .source => s.source
  | .target => s.target

namespace Sanitation

variable {d : Document} {s : Schemas} {e : Edge} {x : Diagnostic} {handle : String}

/-! ## Edges that stand -/

/-- The end names a node that does not exist. -/
def NamesMissing (d : Document) (id : String) (endpoint : Endpoint) : Prop :=
  endpoint = .node id ∧ ∀ n ∈ d.nodes, n.id ≠ id

/-- The handle names something in the schema; a schema that is absent vouches for every handle. -/
def Vouches (schema : Json) (handle : String) : Prop :=
  schema.isNull = true ∨
    ∃ segments ∈ Handle.parse? handle, (Schema.resolve? segments schema).isSome

instance (schema : Json) (handle : String) : Decidable (Vouches schema handle) :=
  inferInstanceAs (Decidable (_ ∨ _))

/-- What the end of an edge leads to is there. -/
def EndStands (d : Document) (s : Schemas) (handle : String) : Endpoint → Prop
  | .node id => ∃ n ∈ d.nodes, n.id = id
  | .source => Vouches s.source handle
  | .target => Vouches s.target handle

instance (d : Document) (s : Schemas) (handle : String) :
    DecidablePred (EndStands d s handle)
  | .node id => inferInstanceAs (Decidable (∃ n ∈ d.nodes, n.id = id))
  | .source => inferInstanceAs (Decidable (Vouches s.source handle))
  | .target => inferInstanceAs (Decidable (Vouches s.target handle))

/-- What the two ends of an edge lead to is there. -/
def Stands (d : Document) (s : Schemas) (e : Edge) : Prop :=
  EndStands d s e.sourcePath e.source ∧ EndStands d s e.targetPath e.target

instance (d : Document) (s : Schemas) : DecidablePred (Stands d s) :=
  fun _ ↦ inferInstanceAs (Decidable (_ ∧ _))

/-- The diagnostic is about what is wrong with the edge: a node that does not exist, or, if there is
none, a handle that its schema does not have.  The start of the edge comes before its end. -/
inductive Told (d : Document) (s : Schemas) (e : Edge) : Diagnostic → Prop
  | startNode {id : String} (h : NamesMissing d id e.source) : Told d s e (.orphanEdge e.id id)
  | endNode {id : String} (hstart : ∀ i, ¬ NamesMissing d i e.source)
    (h : NamesMissing d id e.target) : Told d s e (.orphanEdge e.id id)
  | startHandle {side : Side} (hstart : ∀ i, ¬ NamesMissing d i e.source)
    (hend : ∀ i, ¬ NamesMissing d i e.target) (hside : e.source = side.endpoint)
    (h : ¬ Vouches (s.ofSide side) e.sourcePath) :
    Told d s e (.unresolvedHandle e.id e.sourcePath side.name)
  | endHandle {side : Side} (hstart : EndStands d s e.sourcePath e.source)
    (hend : ∀ i, ¬ NamesMissing d i e.target) (hside : e.target = side.endpoint)
    (h : ¬ Vouches (s.ofSide side) e.targetPath) :
    Told d s e (.unresolvedHandle e.id e.targetPath side.name)

/-! ## Faults -/

/-- An end stands for a node or for the schema of a side. -/
theorem exists_eq_node_or_endpoint (endpoint : Endpoint) :
    (∃ id, endpoint = .node id) ∨ ∃ side : Side, endpoint = side.endpoint :=
  match endpoint with
  | .node id => .inl ⟨id, rfl⟩
  | .source => .inr ⟨.source, rfl⟩
  | .target => .inr ⟨.target, rfl⟩

theorem endStands_endpoint (side : Side) :
    EndStands d s handle side.endpoint ↔ Vouches (s.ofSide side) handle := by
  cases side <;> exact Iff.rfl

theorem not_namesMissing_endpoint (side : Side) (id : String) :
    ¬ NamesMissing d id side.endpoint := by
  rintro ⟨h, _⟩
  cases side <;> cases h

theorem missing?_eq_some_iff {endpoint : Endpoint} {id : String} :
    missing? d endpoint = some id ↔ NamesMissing d id endpoint := by
  cases endpoint with
  | source | target => simp [missing?, Endpoint.node?, NamesMissing]
  | node i =>
    rw [missing?, Endpoint.node?, Option.filter_eq_some_iff, Option.some.injEq, NamesMissing,
      Endpoint.node.injEq]
    refine and_congr_right fun hi ↦ ?_
    simp [Document.hasNode]

theorem missing?_eq_none_iff {endpoint : Endpoint} :
    missing? d endpoint = none ↔ ∀ id, ¬ NamesMissing d id endpoint := by
  simp only [Option.eq_none_iff_forall_ne_some, ne_eq, missing?_eq_some_iff]

theorem hasHandle_iff {schema : Json} :
    (schema.isNull || Schema.hasHandle handle schema) = true ↔ Vouches schema handle := by
  rw [Vouches, Schema.hasHandle]
  cases schema.isNull with
  | true => simp
  | false => cases Handle.parse? handle <;> simp [Schema.resolve?]

theorem handleFault?_endpoint (side : Side) (edge : String) :
    handleFault? s edge handle side.endpoint =
      if Vouches (s.ofSide side) handle then none
      else some (.unresolvedHandle edge handle side.name) := by
  cases side <;> exact if_congr hasHandle_iff rfl rfl

theorem exists_of_handleFault? {edge : String} {endpoint : Endpoint}
    (h : handleFault? s edge handle endpoint = some x) : ∃ side : Side, endpoint = side.endpoint ∧
      ¬ Vouches (s.ofSide side) handle ∧ x = .unresolvedHandle edge handle side.name := by
  rcases exists_eq_node_or_endpoint endpoint with ⟨id, rfl⟩ | ⟨side, rfl⟩
  · cases h
  · rw [handleFault?_endpoint] at h
    split at h
    · cases h
    · next hside => exact ⟨side, rfl, hside, (Option.some.inj h).symm⟩

/-- An end stands if neither its node nor its handle is at fault. -/
theorem endStands_iff (edge : String) {endpoint : Endpoint} : EndStands d s handle endpoint ↔
    missing? d endpoint = none ∧ handleFault? s edge handle endpoint = none := by
  rw [missing?_eq_none_iff]
  rcases exists_eq_node_or_endpoint endpoint with ⟨id, rfl⟩ | ⟨side, rfl⟩
  · simp [EndStands, NamesMissing, handleFault?]
  · rw [endStands_endpoint, handleFault?_endpoint,
      and_iff_right (not_namesMissing_endpoint side)]
    simp

/-- **An edge has no fault** if both of its ends stand. -/
theorem fault?_eq_none_iff : fault? d s e = none ↔ Stands d s e := by
  rw [Stands, endStands_iff e.id, endStands_iff e.id, fault?]
  cases missing? d e.source <;> cases missing? d e.target <;> simp

/-- **A fault is told** as it should be. -/
theorem told_of_fault? (h : fault? d s e = some x) : Told d s e x := by
  rw [fault?] at h
  cases hstart : missing? d e.source with
  | some id =>
    rw [hstart] at h
    exact Option.some.inj h ▸ .startNode (missing?_eq_some_iff.mp hstart)
  | none =>
    have hstart' := missing?_eq_none_iff.mp hstart
    cases hend : missing? d e.target with
    | some id =>
      rw [hstart, hend] at h
      exact Option.some.inj h ▸ .endNode hstart' (missing?_eq_some_iff.mp hend)
    | none =>
      have hend' := missing?_eq_none_iff.mp hend
      rw [hstart, hend] at h
      cases hhandle : handleFault? s e.id e.sourcePath e.source with
      | some y =>
        rw [hhandle] at h
        obtain ⟨side, hside, hv, rfl⟩ := exists_of_handleFault? hhandle
        exact Option.some.inj h ▸ .startHandle hstart' hend' hside hv
      | none =>
        rw [hhandle] at h
        obtain ⟨side, hside, hv, rfl⟩ := exists_of_handleFault? h
        exact .endHandle ((endStands_iff e.id).mpr ⟨hstart, hhandle⟩) hend' hside hv

/-! ## The edges that are left, and those that are told of -/

/-- What a list gives belongs, one after the other, to those of its members that give something. -/
theorem forall₂_filterMap {α β : Type} {R : α → β → Prop} {f : α → Option β} {l : List α}
    (h : ∀ a b, f a = some b → R a b) :
    List.Forall₂ R (l.filter fun a ↦ (f a).isSome) (l.filterMap f) := by
  induction l with
  | nil => exact .nil
  | cons a l ih =>
    cases hf : f a with
    | none => rwa [List.filterMap_cons_none hf, List.filter_cons_of_neg (by simp [hf])]
    | some b =>
      rw [List.filterMap_cons_some hf, List.filter_cons_of_pos (by simp [hf])]
      exact .cons (h a b hf) ih

theorem isNone_fault? : (fault? d s e).isNone = decide (Stands d s e) := by
  rw [Bool.eq_iff_iff, decide_eq_true_iff, Option.isNone_iff_eq_none, fault?_eq_none_iff]

theorem isSome_fault? : (fault? d s e).isSome = decide (¬ Stands d s e) := by
  rw [decide_not, ← isNone_fault?, Option.not_isNone]

theorem clean_eq (d : Document) (s : Schemas) :
    clean d s = { d with edges := d.edges.filter fun e ↦ Stands d s e } := by
  rw [clean, kept, List.filter_congr fun e _ ↦ isNone_fault?]

theorem forall₂_told (d : Document) (s : Schemas) :
    List.Forall₂ (Told d s) (d.edges.filter fun e ↦ ¬ Stands d s e) (diagnostics d s) := by
  rw [← List.filter_congr fun e _ ↦ isSome_fault?]
  exact forall₂_filterMap fun _ _ ↦ told_of_fault?

theorem isClean_iff : isClean d s = true ↔ ∀ e ∈ d.edges, Stands d s e := by
  simp only [isClean, List.all_eq_true, isNone_fault?, decide_eq_true_iff]

theorem stands_of_mem_clean (h : e ∈ (clean d s).edges) : Stands d s e := by
  rw [clean_eq] at h
  exact of_decide_eq_true (List.mem_filter.mp h).2

/-- What sanitation does: it leaves the edges that stand, tells of each other edge, and changes
nothing else. -/
structure Filters (d : Document) (s : Schemas) : Prop where
  /-- Only the list of edges is another. -/
  document : clean d s = { d with edges := d.edges.filter fun e ↦ Stands d s e }
  /-- There is one diagnostic for each edge that is missing, in the order of the edges. -/
  told : List.Forall₂ (Told d s) (d.edges.filter fun e ↦ ¬ Stands d s e) (diagnostics d s)
  /-- The document counts as clean if no edge had to go. -/
  isClean : isClean d s = true ↔ (clean d s).edges = d.edges

theorem filters (d : Document) (s : Schemas) : Filters d s where
  document := clean_eq d s
  told := forall₂_told d s
  isClean := by
    rw [isClean_iff, clean_eq, List.filter_eq_self]
    simp only [decide_eq_true_iff]

/-! ## Sanitizing again -/

/-- Sanitation finds nothing. -/
structure Settled (d : Document) (s : Schemas) : Prop where
  isClean : isClean d s = true
  clean : clean d s = d
  diagnostics : diagnostics d s = []

theorem settled_of_forall (h : ∀ e ∈ d.edges, Stands d s e) : Settled d s where
  isClean := isClean_iff.mpr h
  clean := by
    rw [clean_eq, List.filter_eq_self.mpr fun e he ↦ decide_eq_true (h e he)]
  diagnostics := List.filterMap_eq_nil_iff.mpr fun e he ↦ fault?_eq_none_iff.mpr (h e he)

/-- Whether an edge stands does not depend on the other edges. -/
theorem settled_clean (d : Document) (s : Schemas) : Settled (clean d s) s :=
  settled_of_forall fun e he ↦ show Stands d s e from stands_of_mem_clean he

end Sanitation

/-! ## Compiling what was sanitized -/

/-- The two compilations have the same outcome, apart from the checksum and from what one of them had
to tell beforehand. -/
structure Compilation.Follows (after before : Compilation) (told : List Diagnostic) : Prop where
  mappings : after.output.mappings = before.output.mappings
  shared : after.output.shared = before.output.shared
  schemas : after.output.schemas = before.output.schemas
  metadata : after.output.metadata = before.output.metadata
  unbuilt : after.unbuilt = before.unbuilt
  diagnostics : before.diagnostics.items = told ++ after.diagnostics.items

namespace Compiler

variable (c : Compiler) (d : Document)

/-- The edges of the graph stand. -/
theorem stands_of_mem_edges {e : Edge} (h : e ∈ (c.stages d).graph.edges) :
    Sanitation.Stands d (Sanitation.schemasOf d none none) e :=
  Sanitation.stands_of_mem_clean h

/-- The document as a compilation sanitizes it. -/
def sanitized (d : Document) : Document :=
  Sanitation.clean d (Sanitation.schemasOf d none none)

theorem graph_sanitized : (c.stages (sanitized d)).graph = (c.stages d).graph := by
  rw [stages_graph, stages_graph]
  exact congrArg Graph.ofDocument (Sanitation.settled_clean d _).clean

theorem output_sanitized : (c.stages (sanitized d)).output = (c.stages d).output := by
  rw [stages_output, stages_output, graph_sanitized]

theorem resolver_sanitized : c.resolver (sanitized d) = c.resolver d := by
  rw [resolver, resolver, stages_sharing, stages_sharing, output_sanitized, graph_sanitized]

theorem compile_sanitized : (c.compile (sanitized d)).Follows (c.compile d)
    (Sanitation.diagnostics d (Sanitation.schemasOf d none none)) where
  mappings := by rw [mappings_compile, mappings_compile, graph_sanitized, resolver_sanitized]
  shared := by rw [shared_compile, shared_compile, graph_sanitized, resolver_sanitized]
  schemas := by
    rw [schemas_compile, schemas_compile]
    exact Eq.refl _
  metadata := by
    rw [metadata_compile, metadata_compile]
    exact Eq.refl _
  unbuilt := by rw [unbuilt_compile, unbuilt_compile, output_sanitized]
  diagnostics := by
    have hnothing : (c.stages (sanitized d)).sanitationDiagnostics = [] :=
      (Sanitation.settled_clean d _).diagnostics
    rw [diagnostics_compile, diagnostics_compile, hnothing, stages_buildDiagnostics,
      stages_buildDiagnostics, graph_sanitized, resolver_sanitized, stages_sanitationDiagnostics,
      List.nil_append, List.append_assoc]

end Compiler

/-- **Sanitation is a filter**, whatever schemas are given in the place of the document's own: it
leaves exactly the edges that stand and tells of each other one.  A second time there is nothing to
do, and a compilation of what it leaves has the outcome that it has for the document. -/
theorem Sanitation.filters_and_settles (c : Compiler) (d : Document) (source target : Option Json) :
    let s := schemasOf d source target
    Filters d s ∧ Settled (clean d s) (schemasOf (clean d s) source target) ∧
      (c.compile (clean d (schemasOf d none none))).Follows (c.compile d)
        (diagnostics d (schemasOf d none none)) :=
  ⟨filters d _, settled_clean d _, c.compile_sanitized d⟩

end MappingGraph
