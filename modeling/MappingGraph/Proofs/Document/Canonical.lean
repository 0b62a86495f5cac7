import MappingGraph.Proofs.Emission
import MappingGraph.Proofs.Expr.Codec
import MappingGraph.Proofs.Json.Ensures

/-!
# Free values from the document to the output

A document carries free values: schemas, settings of nodes, patches, metadata.  `Document.Canonical`
says that they are canonical, as they are in every document that was read.  A compilation takes
literals and settings from there, or reads them from a text itself, and merges patches into the
schemas; so the free values of the output are canonical too (`Compiler.canonical_compile`).
-/

set_option autoImplicit false

namespace MappingGraph

/-- The free values of the document are canonical. -/
structure Document.Canonical (d : Document) : Prop where
  configs : ∀ n ∈ d.nodes, n.config.Canonical
  sourceSchema : d.sourceSchema.Canonical
  targetSchema : d.targetSchema.Canonical
  patches : ∀ o ∈ d.overlays, o.patch.Canonical
  metadata : d.metadata.Canonical

/-- The free values of the compiled mapping are canonical. -/
structure CompiledMapping.Canonical (m : CompiledMapping) : Prop where
  expressions : ∀ a, m.Has a → a.Canonical
  sourceSchema : m.schemas.source.Canonical
  targetSchema : m.schemas.target.Canonical
  metadata : m.metadata.Canonical

/-! ## Documents that were read -/

theorem Node.ensures_decode : Node.decode.Ensures fun n ↦ n.config.Canonical :=
  Fields.Ensures.decode
    (.skip (.skip (.skip
      (.cons Decoder.ensures_json (fun _ h ↦ Option.some.inj h ▸ .null) .nil))))
    fun _ h ↦ h.2.2.2.1

theorem Overlay.ensures_decode : Overlay.decode.Ensures fun o ↦ o.patch.Canonical :=
  Fields.Ensures.decode
    (.skip (.skip (.cons Decoder.ensures_json nofun .nil)))
    fun _ h ↦ h.2.2.1

/-- **The free values of a document that was read are canonical.** -/
theorem Document.ensures_decode : Document.decode.Ensures Document.Canonical :=
  Fields.Ensures.decode
    (.cons Node.ensures_decode.list (fun _ h ↦ Option.some.inj h ▸ List.forall_mem_nil _)
      (.skip
        (.cons Decoder.ensures_json (fun _ h ↦ Option.some.inj h ▸ .null)
          (.cons Decoder.ensures_json (fun _ h ↦ Option.some.inj h ▸ .null)
            (.cons Overlay.ensures_decode.list (fun _ h ↦ Option.some.inj h ▸ List.forall_mem_nil _)
              (.cons Decoder.ensures_json (fun _ h ↦ Option.some.inj h ▸ .null) .nil))))))
    fun _ h ↦ ⟨h.1, h.2.2.1, h.2.2.2.1, h.2.2.2.2.1, h.2.2.2.2.2.1⟩

/-! ## Built nodes -/

namespace Rule

variable {config : Json}

theorem Supplied.canonical {v : Json} (h : Supplied config v) (hc : config.Canonical) :
    v.Canonical := by
  induction h with
  | null => exact .null
  | bool => exact .bool _
  | number => exact .number _
  | string => exact .string _
  | settings => exact hc
  | read h => exact Json.canonical_of_ofText? h
  | item _ hmem ih => exact ih.of_mem_items hmem
  | member _ hmem ih => exact ih.of_mem_members hmem

end Rule

namespace Node

variable {registry : Registry} {node : Node}

/-- The settings that a node passes along are its own. -/
theorem config_of_callee? {function : String} {config : Json}
    (h : node.callee? registry = some (function, some config)) : config = node.config := by
  rw [callee?] at h
  split at h
  · cases hk : node.kind <;> simp [Kind.rule, Rule.callee?, hk] at h
    exact h.2.symm
  · cases h

end Node

namespace Graph

theorem mem_of_mem_firstById {n : Node} {ns : List Node} (h : n ∈ firstById ns) : n ∈ ns := by
  induction ns with
  | nil => exact h
  | cons m ns ih =>
    rcases List.mem_cons.mp h with rfl | h
    · exact List.mem_cons_self
    · exact List.mem_cons_of_mem m (ih (List.mem_of_mem_filter h))

end Graph

/-! ## The output -/

namespace Compiler

variable (c : Compiler) {d : Document}

theorem canonical_of_has (hd : d.Canonical) {a : Atom} (h : (c.compile d).output.Has a) :
    a.Canonical := by
  cases c.origin_of_has d h with
  | field _ _ ha => exact ha ▸ trivial
  | null ha => exact ha ▸ .null
  | @node id e hmem _ ha =>
    rw [stages_output] at hmem
    obtain ⟨node, hnode, rfl⟩ := Graph.exists_node?_of_mem_built hmem
    have hconfig : node.config.Canonical :=
      hd.configs node (Graph.mem_of_mem_firstById (List.mem_of_find?_eq_some hnode))
    cases Graph.brings_of_mem_atoms ha with
    | field _ _ ha => exact ha ▸ trivial
    | literal h _ ha => exact ha ▸ h.canonical hconfig
    | @call callee h ha =>
      obtain ⟨function, config⟩ := callee
      cases config with
      | none => exact ha ▸ trivial
      | some config => exact ha ▸ Node.config_of_callee? h ▸ hconfig

/-- **The free values of the output are canonical** if those of the document are. -/
theorem canonical_compile (hd : d.Canonical) : (c.compile d).output.Canonical where
  expressions _ := c.canonical_of_has hd
  sourceSchema := Overlay.canonical_applyAll hd.sourceSchema .source hd.patches
  targetSchema := Overlay.canonical_applyAll hd.targetSchema .target hd.patches
  metadata := hd.metadata

end Compiler

end MappingGraph
