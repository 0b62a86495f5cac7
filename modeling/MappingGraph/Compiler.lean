import MappingGraph.Assembly

/-!
# Compiling a document

The way of a document: its overlays are applied to the schemas, edges without meaning are dropped,
the nodes are built in order, the values worth sharing are chosen, placeholders are resolved, and
what is used is put together.  There is always an outcome; whatever was dropped or replaced is among
the diagnostics, stage by stage.
-/

set_option autoImplicit false

namespace MappingGraph

/-- The operations and options to compile with. -/
structure Compiler where
  registry : Registry := Registry.standard
  options : Options := {}
deriving Repr, Inhabited

namespace Compiler

/-- Everything that compiling finds on the way. -/
structure Stages where
  schemas : Schemas
  cleaned : Document
  graph : Graph
  output : BuildOutput
  sharing : Sharing
  assembly : Assembly
  sanitationDiagnostics : List Diagnostic
  buildDiagnostics : List Diagnostic
  resolutionDiagnostics : List Diagnostic

/-- Goes through the stages with a document that is already clean. -/
def stagesOf (c : Compiler) (schemas : Schemas) (cleaned : Document)
    (dropped : List Diagnostic) : Stages :=
  let graph := Graph.ofDocument cleaned
  let output := graph.build c.registry
  let sharing := graph.sharing output c.registry c.options
  let (assembly, state) := (graph.assemble output sharing c.registry).run {}
  { schemas, cleaned, graph, output, sharing, assembly
    sanitationDiagnostics := dropped
    buildDiagnostics := graph.buildDiagnostics c.registry
    resolutionDiagnostics := state.reports }

/-- Goes through all stages. -/
def stages (c : Compiler) (d : Document) : Stages :=
  let schemas := Sanitation.schemasOf d none none
  c.stagesOf schemas (Sanitation.clean d schemas) (Sanitation.diagnostics d schemas)

namespace Stages

/-- The diagnostics of all stages. -/
def diagnostics (s : Stages) : Diagnostics :=
  ⟨s.sanitationDiagnostics ++ s.buildDiagnostics ++ s.resolutionDiagnostics⟩

end Stages

/-- Compiles a document. -/
def compile (c : Compiler) (d : Document) : Compilation :=
  let s := c.stages d
  { output :=
      { mappings := s.assembly.mappings
        shared := s.assembly.shared
        schemas := s.schemas
        metadata := d.metadata
        checksum := Checksum.ofDocument d }
    unbuilt := s.output.unbuilt
    diagnostics := s.diagnostics }

end Compiler

/-- Compiles a document with the standard operations and options. -/
def Document.compile (d : Document) : CompiledMapping := (({} : Compiler).compile d).output

end MappingGraph
