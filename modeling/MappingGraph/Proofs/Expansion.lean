import Mathlib.Logic.Function.Iterate
import MappingGraph.Proofs.Liveness

/-!
# Expanding shared values

Sharing must not change what a mapping means.  A compiled mapping is expanded by putting, round after
round, the expression of a shared value in the place of every reference to it.  The last theorem of
the file says that every compilation can be expanded, that this ends after at most as many rounds as
there are shared values, and that it ends in the mappings of the compilation that shares nothing.

A reference names a shared value that stands further in front with every round, which is why it ends.
What it ends in is `Resolver.unshared`: there the value of a node is built of the values of its
inputs, and a reference only stands for one of these.
-/

set_option autoImplicit false

namespace MappingGraph

namespace CompiledMapping

/-- What a reference stands for: the expression of the shared value that has its name. -/
def lookup (out : CompiledMapping) (ref : SharedRef) : Expression :=
  match out.shared.find? (·.varName = ref.varName) with
  | some s => s.expression
  | none => .reference ref

/-- One round: every reference is replaced by what it stands for. -/
def expandOnce (out : CompiledMapping) (e : Expression) : Expression := e.mapRefs out.lookup

/-- The mappings after some rounds. -/
def expanded (out : CompiledMapping) (rounds : Nat) : List FieldMapping :=
  out.mappings.map fun m ↦ ⟨m.targetPath, out.expandOnce^[rounds] m.expression⟩

end CompiledMapping

/-- The one compilation is the other with values shared. -/
structure Compilation.Shares (shared plain : Compilation) : Prop where
  /-- Whenever a reference is met, exactly one shared value has its name. -/
  named : ∀ rounds, ∀ m ∈ shared.output.expanded rounds, ∀ ref ∈ m.expression.refs,
    ∃! s, s ∈ shared.output.shared ∧ s.varName = ref.varName
  /-- In the end no reference is left. -/
  ends : ∀ rounds ≥ shared.output.shared.length, ∀ m ∈ shared.output.expanded rounds,
    m.expression.refs = []
  mappings : ∀ rounds ≥ shared.output.shared.length,
    shared.output.expanded rounds = plain.output.mappings
  unbuilt : shared.unbuilt = plain.unbuilt
  diagnostics : shared.diagnostics = plain.diagnostics
  schemas : shared.output.schemas = plain.output.schemas
  metadata : shared.output.metadata = plain.output.metadata
  checksum : shared.output.checksum = plain.output.checksum

/-- The same compiler, but nothing is shared. -/
def Compiler.withoutHoisting (c : Compiler) : Compiler :=
  { c with options := { c.options with hoistShared := false } }

/-! ## Without sharing -/

namespace Resolver

variable {r : Resolver}

/-- With its references replaced by unshared values, what an edge brings is what it brings when
nothing is shared. -/
theorem mapRefs_ofEdge (hl : LatestFirst r.latestFirst) (e : Edge) :
    (r.ofEdge e).mapRefs (fun ref ↦ r.unshared.value ref.node) = r.unshared.ofEdge e := by
  rw [ofEdge, ofEdge]
  cases e.source with
  | source | target => rfl
  | node id => exact mapRefs_use hl id

/-- If only built nodes are shared, the same unbuilt nodes are met with and without sharing. -/
theorem noteEdge_unshared (hs : ∀ s ∈ r.sharing.nodes, s.node ∈ r.latestFirst.map Prod.fst) :
    r.unshared.noteEdge = r.noteEdge := by
  funext missing e
  rw [noteEdge, noteEdge]
  cases e.source with
  | source | target => rfl
  | node id =>
    change r.noteInline missing id = r.noteUse missing id
    rw [noteUse]
    split
    · next h =>
      obtain ⟨s, hs'⟩ := Option.isSome_iff_exists.mp h
      have hid : s.node = id := by simpa using List.find?_some hs'
      rw [noteInline_of_mem (hid ▸ hs s (List.mem_of_find?_eq_some hs'))]
    · rfl

end Resolver

namespace Compiler

variable (c : Compiler) (d : Document)

theorem graph_withoutHoisting : (c.withoutHoisting.stages d).graph = (c.stages d).graph := by
  rw [stages_graph, stages_graph]

theorem output_withoutHoisting : (c.withoutHoisting.stages d).output = (c.stages d).output := by
  rw [stages_output, stages_output, graph_withoutHoisting]
  exact Eq.refl _

theorem sharing_withoutHoisting : (c.withoutHoisting.stages d).sharing = ⟨[]⟩ := by
  rw [stages_sharing]
  exact if_neg Bool.false_ne_true

theorem resolver_withoutHoisting : c.withoutHoisting.resolver d = (c.resolver d).unshared := by
  rw [resolver, output_withoutHoisting, sharing_withoutHoisting]
  exact Eq.refl _

theorem mappings_withoutHoisting :
    (c.withoutHoisting.compile d).output.mappings =
      (c.stages d).graph.mappingsBy (c.resolver d).unshared := by
  rw [mappings_compile, graph_withoutHoisting, resolver_withoutHoisting]

theorem schemas_withoutHoisting :
    (c.withoutHoisting.compile d).output.schemas = (c.compile d).output.schemas :=
  (c.withoutHoisting.stages_schemas d).trans (c.stages_schemas d).symm

theorem diagnostics_withoutHoisting :
    (c.withoutHoisting.compile d).diagnostics = (c.compile d).diagnostics := by
  have hmissing : (c.stages d).graph.missingBy (c.resolver d).unshared =
      (c.stages d).graph.missingBy (c.resolver d) := by
    rw [Graph.missingBy, Graph.missingBy,
      Resolver.noteEdge_unshared fun s ↦ c.mem_latestFirst_of_shared d]
  have hbuild : (c.withoutHoisting.stages d).buildDiagnostics = (c.stages d).buildDiagnostics := by
    rw [stages_buildDiagnostics, stages_buildDiagnostics, graph_withoutHoisting]
    exact Eq.refl _
  rw [diagnostics_compile, diagnostics_compile, graph_withoutHoisting, resolver_withoutHoisting,
    hmissing, hbuild, stages_sanitationDiagnostics, stages_sanitationDiagnostics]

/-! ## Rounds -/

/-- A reference stands for the shared value that it names. -/
theorem lookup_eq {ref : SharedRef} {s : SharedExpression} (hs : s ∈ (c.compile d).output.shared)
    (hnames : ref.Names s) : (c.compile d).output.lookup ref = s.expression := by
  rw [CompiledMapping.lookup]
  cases hf : (c.compile d).output.shared.find? (·.varName = ref.varName) with
  | none => exact absurd (decide_eq_true hnames.2) (List.find?_eq_none.mp hf s hs)
  | some t =>
    have hname : t.varName = ref.varName := by simpa using List.find?_some hf
    have ht : t = s := List.inj_on_of_nodup_map (c.nodup_varName d)
      (List.mem_of_find?_eq_some hf) hs (hname.trans hnames.2.symm)
    rw [ht]

theorem mapRefs_of_mem_shared {s : SharedExpression} (hs : s ∈ (c.compile d).output.shared) :
    s.expression.mapRefs (fun ref ↦ (c.resolver d).unshared.value ref.node) =
      (c.resolver d).unshared.value s.node := by
  obtain ⟨n, _, rfl⟩ := List.mem_map.mp ((c.mem_shared_iff d).mp hs).1
  exact Resolver.mapRefs_value (c.resolver_latestFirst d) n.node

/-- **Enough rounds put the unshared values in the place of all references.**  The induction is on
the rounds: the references of the next round lead further to the front. -/
theorem expandOnce_iterate (n : Nat) {e : Expression}
    (he : ∀ ref ∈ e.refs, ∃ j < n, ∃ s, (c.compile d).output.shared[j]? = some s ∧ ref.Names s) :
    (c.compile d).output.expandOnce^[n] e =
      e.mapRefs fun ref ↦ (c.resolver d).unshared.value ref.node := by
  induction n generalizing e with
  | zero =>
    have hrefs : ∀ ref ∈ e.refs, False := fun ref href ↦ by
      obtain ⟨j, hj, _⟩ := he ref href
      exact Nat.not_lt_zero j hj
    rw [Function.iterate_zero, id, Expr.mapRefs_congr fun ref href ↦ (hrefs ref href).elim,
      Expr.mapRefs_reference]
  | succ n ih =>
    rw [Function.iterate_succ_apply, ih]
    · rw [CompiledMapping.expandOnce, Expr.mapRefs_mapRefs]
      refine Expr.mapRefs_congr fun ref href ↦ ?_
      obtain ⟨j, _, s, hj, hnames⟩ := he ref href
      have hs := List.mem_of_getElem? hj
      rw [c.lookup_eq d hs hnames, c.mapRefs_of_mem_shared d hs, hnames.1]
    · intro ref href
      obtain ⟨ref', href', href⟩ := Expr.mem_refs_mapRefs.mp href
      obtain ⟨j, hj, s, hs, hnames⟩ := he ref' href'
      rw [c.lookup_eq d (List.mem_of_getElem? hs) hnames] at href
      obtain ⟨i, hi, t, ht, hnames'⟩ := c.exists_earlier_of_mem_refs d hs href
      exact ⟨i, by omega, t, ht, hnames'⟩

/-- A round leaves references only that occur in the output. -/
theorem cites_of_mem_refs_iterate (n : Nat) {e : Expression}
    (he : ∀ ref ∈ e.refs, (c.compile d).output.Cites ref) {ref : SharedRef}
    (href : ref ∈ ((c.compile d).output.expandOnce^[n] e).refs) :
    (c.compile d).output.Cites ref := by
  induction n generalizing e with
  | zero => exact he ref href
  | succ n ih =>
    rw [Function.iterate_succ_apply] at href
    refine ih (fun ref' href' ↦ ?_) href
    obtain ⟨ref'', href'', href'⟩ := Expr.mem_refs_mapRefs.mp href'
    obtain ⟨s, hs, hnames⟩ := c.exists_shared_of_cites d (he ref'' href'')
    rw [c.lookup_eq d hs hnames] at href'
    exact .inr ⟨s, hs, href'⟩

/-- What the mappings are expanded to. -/
theorem expanded_eq {n : Nat} (hn : (c.compile d).output.shared.length ≤ n) :
    (c.compile d).output.expanded n =
      (c.stages d).graph.mappingsBy (c.resolver d).unshared := by
  have hl := c.resolver_latestFirst d
  have hrefs : ∀ m ∈ (c.compile d).output.mappings, ∀ ref ∈ m.expression.refs,
      ∃ j < n, ∃ s, (c.compile d).output.shared[j]? = some s ∧ ref.Names s := by
    intro m hm ref href
    obtain ⟨s, hs, hnames⟩ := c.exists_shared_of_cites d (.inl ⟨m, hm, href⟩)
    obtain ⟨j, hj⟩ := List.mem_iff_getElem?.mp hs
    have hlt := (List.getElem?_eq_some_iff.mp hj).1
    exact ⟨j, by omega, s, hj, hnames⟩
  rw [CompiledMapping.expanded, List.map_congr_left fun m hm ↦ by
    rw [c.expandOnce_iterate d n (hrefs m hm)]]
  rw [mappings_compile, Graph.mappingsBy, Graph.mappingsBy, List.map_map]
  refine List.map_congr_left fun e _ ↦ ?_
  rw [Function.comp_apply, Resolver.mapRefs_ofEdge hl]

/-- **Sharing changes nothing but where expressions are written.** -/
theorem compile_shares : (c.compile d).Shares (c.withoutHoisting.compile d) where
  named n m hm ref href := by
    obtain ⟨m', hm', rfl⟩ := List.mem_map.mp hm
    have hcites := c.cites_of_mem_refs_iterate d n (fun ref' h ↦ .inl ⟨m', hm', h⟩) href
    obtain ⟨s, hs, hnames⟩ := c.exists_shared_of_cites d hcites
    refine ⟨s, ⟨hs, hnames.2⟩, fun t ht ↦ ?_⟩
    exact List.inj_on_of_nodup_map (c.nodup_varName d) ht.1 hs (ht.2.trans hnames.2.symm)
  ends n hn m hm := by
    rw [c.expanded_eq d hn] at hm
    refine List.eq_nil_iff_forall_not_mem.mpr fun ref href ↦ ?_
    have hnone := Graph.varName?_of_mapping (r := (c.resolver d).unshared)
      (c.resolver_latestFirst d) hm href
    cases hnone
  mappings n hn := by rw [c.expanded_eq d hn, mappings_withoutHoisting]
  unbuilt := (congrArg BuildOutput.unbuilt (c.output_withoutHoisting d)).symm
  diagnostics := (c.diagnostics_withoutHoisting d).symm
  schemas := (c.schemas_withoutHoisting d).symm
  metadata := by rw [compile, compile]
  checksum := by rw [compile, compile]

end Compiler

end MappingGraph
