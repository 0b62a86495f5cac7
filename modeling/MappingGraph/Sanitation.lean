import MappingGraph.Diagnostic
import MappingGraph.Document.Basic

/-!
# Sanitation

An editor keeps edges around that mean nothing at the moment: their node was deleted, or their field
is not in the schema.  Sanitation drops them.  An edge has a fault if a node at one of its ends does
not exist, or else if its handle at a schema does not name anything there; the first fault counts,
the start of the edge before its end.  A schema that is absent vouches for every handle.
-/

set_option autoImplicit false

namespace MappingGraph

/-- The two schemas of a mapping. -/
structure Schemas where
  source : Json
  target : Json
deriving Repr, Inhabited

namespace Sanitation

/-- The schemas of a document with its overlays applied; given schemas stand in for its own. -/
def schemasOf (d : Document) (source target : Option Json) : Schemas :=
  ⟨Overlay.applyAll d.overlays .source (source.getD d.sourceSchema),
   Overlay.applyAll d.overlays .target (target.getD d.targetSchema)⟩

/-- The id at an end of an edge that names no node. -/
def missing? (d : Document) (e : Endpoint) : Option String := e.node?.filter (!d.hasNode ·)

/-- Why an end of an edge is no field of its schema. -/
def handleFault? (s : Schemas) (edge : String) (handle : String) : Endpoint → Option Diagnostic
  | .source =>
    if s.source.isNull || Schema.hasHandle handle s.source then none
    else some (.unresolvedHandle edge handle "source")
  | .target =>
    if s.target.isNull || Schema.hasHandle handle s.target then none
    else some (.unresolvedHandle edge handle "target")
  | .node _ => none

/-- Why an edge cannot be kept, if so. -/
def fault? (d : Document) (s : Schemas) (e : Edge) : Option Diagnostic :=
  ((missing? d e.source <|> missing? d e.target).map (.orphanEdge e.id)) <|>
    handleFault? s e.id e.sourcePath e.source <|>
    handleFault? s e.id e.targetPath e.target

/-- The edges that can be kept. -/
def kept (d : Document) (s : Schemas) : List Edge := d.edges.filter fun e => (fault? d s e).isNone

/-- The document without the edges that cannot be kept. -/
def clean (d : Document) (s : Schemas) : Document := { d with edges := kept d s }

/-- One diagnostic for each edge that is dropped, in the order of the edges. -/
def diagnostics (d : Document) (s : Schemas) : List Diagnostic := d.edges.filterMap (fault? d s)

/-- Whether nothing has to be dropped. -/
def isClean (d : Document) (s : Schemas) : Bool := d.edges.all fun e => (fault? d s e).isNone

end Sanitation

end MappingGraph
