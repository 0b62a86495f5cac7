import MappingGraph.Proofs.Build.Atoms
import MappingGraph.Proofs.Emission
import MappingGraph.Proofs.Sanitation
import MappingGraph.Proofs.Schema.Handle

/-!
# Paths of the output

A compiled mapping comes with its schemas, and whoever runs it looks up its paths there.
`Schema.HasPath` says that a path leads to something in a schema, and `CompiledMapping.PathsHold` that
all paths of a mapping do: those of the fields it fills in the target schema, and those of the fields
it reads, however deep in an expression, in the source schema.

A path comes from an edge that sanitation let pass, whose handle therefore names something in its
schema.  That the same can be said of the path written for it is where the two readings of a handle
have to agree.
-/

set_option autoImplicit false

namespace MappingGraph

/-- The path leads to something in the schema. -/
def Schema.HasPath (schema : Json) (path : String) : Prop :=
  ∃ segments, (resolve? segments schema).isSome ∧ path = Handle.pathOf segments

/-- The paths of a compiled mapping lead to something in its schemas, as far as these are there. -/
structure CompiledMapping.PathsHold (m : CompiledMapping) : Prop where
  target (h : m.schemas.target.isNull = false) :
    ∀ f ∈ m.mappings, Schema.HasPath m.schemas.target f.targetPath
  source (h : m.schemas.source.isNull = false) :
    ∀ path, m.Has (.field path) → Schema.HasPath m.schemas.source path

/-- The path written for a handle leads to what the handle names. -/
theorem Sanitation.Vouches.hasPath {schema : Json} {handle : String} (h : Vouches schema handle)
    (hnull : schema.isNull = false) : Schema.HasPath schema (Handle.cleanPath handle) := by
  rcases h with h | ⟨segments, hparse, hresolve⟩
  · exact absurd (hnull.symm.trans h) Bool.false_ne_true
  · exact ⟨segments, hresolve, Handle.cleanPath_of_parse? hparse⟩

namespace Compiler

variable (c : Compiler) (d : Document)

/-- **A field is read along an edge from the source**, whether into a node or into the target. -/
theorem exists_edge_of_has_field {path : String} (h : (c.compile d).output.Has (.field path)) :
    ∃ e ∈ (c.stages d).graph.edges, e.source = .source ∧
      path = Handle.cleanPath e.sourcePath := by
  cases c.origin_of_has d h with
  | field he hs ha => exact ⟨_, (List.mem_filter.mp he).1, hs, Atom.field.inj ha⟩
  | null ha => cases ha
  | node hmem _ ha =>
    obtain ⟨node, _, rfl⟩ := Graph.exists_node?_of_mem_built hmem
    cases Graph.brings_of_mem_atoms ha with
    | field he hs ha => exact ⟨_, (List.mem_filter.mp he).1, hs, Atom.field.inj ha⟩
    | literal _ _ ha => cases ha
    | call _ ha => cases ha

/-- **Every path of the output leads to something in the schemas of the output.** -/
theorem compile_pathsHold : (c.compile d).output.PathsHold where
  target hnull f hf := by
    rw [mappings_compile] at hf
    obtain ⟨e, he, rfl⟩ := List.mem_map.mp hf
    obtain ⟨hedge, htarget⟩ := List.mem_filter.mp he
    have hend := (c.stands_of_mem_edges d hedge).2
    rw [of_decide_eq_true htarget] at hend
    exact hend.hasPath hnull
  source hnull path hpath := by
    obtain ⟨e, he, hsource, rfl⟩ := c.exists_edge_of_has_field d hpath
    have hstart := (c.stands_of_mem_edges d he).1
    rw [hsource] at hstart
    exact hstart.hasPath hnull

end Compiler

end MappingGraph
