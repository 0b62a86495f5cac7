import MappingGraph.Operation.Kind
import MappingGraph.Schema.Overlay

/-!
# Mapping documents

A document is the graph as an editor leaves it: nodes, edges between them and the two schemas, the
schemas themselves with their overlays, and metadata that passes through.  Nothing about it is
checked yet.  Ids may repeat, edges may lead nowhere, and the edges may form cycles.
-/

set_option autoImplicit false

namespace MappingGraph

/-- One end of an edge: one of the two schemas, or a node by its id. -/
inductive Endpoint where
  | source
  | target
  | node (id : String)
deriving DecidableEq, Repr, Inhabited

namespace Endpoint

/-- The id that stands for the source schema. -/
def sourceId : String := "source-schema"

/-- The id that stands for the target schema. -/
def targetId : String := "target-schema"

/-- The id of an end in a document. -/
def id : Endpoint → String
  | source => sourceId
  | target => targetId
  | node id => id

/-- The end that an id stands for. -/
def ofId (id : String) : Endpoint :=
  if id = sourceId then source else if id = targetId then target else node id

/-- The id of the node, unless the end is a schema. -/
def node? : Endpoint → Option String
  | node id => some id
  | _ => none

end Endpoint

/-- A node of the graph. -/
structure Node where
  id : String
  kind : Kind
  /-- What a user calls the node. -/
  label : Option String := none
  /-- The settings of the node, which depend on its kind. -/
  config : Json := .null
deriving Repr, Inhabited

/-- A connection between two ends. -/
structure Edge where
  id : String := ""
  source : Endpoint
  /-- The field of the source schema, if the edge starts there. -/
  sourceHandle : Option String := none
  target : Endpoint
  /-- The field of the target schema, or the input of a node as `input-<N>`. -/
  targetHandle : Option String := none
deriving DecidableEq, Repr, Inhabited

namespace Edge

/-- The position `N` of a target handle `input-<N>`. -/
def inputIndex? (e : Edge) : Option Nat := do
  let handle ← e.targetHandle
  let rest ← List.isPrefixOf? "input-".toList handle.toList
  Text.naturalBelow? (Nat.pow 2 64) (String.ofList rest)

/-- The source handle; an edge without one names the empty handle. -/
def sourcePath (e : Edge) : String := e.sourceHandle.getD ""

@[inherit_doc sourcePath]
def targetPath (e : Edge) : String := e.targetHandle.getD ""

end Edge

/-- A mapping graph as it was drawn. -/
structure Document where
  nodes : List Node := []
  edges : List Edge := []
  sourceSchema : Json := .null
  targetSchema : Json := .null
  overlays : List Overlay := []
  metadata : Json := .null
deriving Repr, Inhabited

namespace Document

/-- The schema of a side as the document gives it. -/
def schema (d : Document) : Side → Json
  | .source => d.sourceSchema
  | .target => d.targetSchema

/-- The first node with an id. -/
def node? (d : Document) (id : String) : Option Node := d.nodes.find? (·.id = id)

/-- Whether some node has the id. -/
def hasNode (d : Document) (id : String) : Bool := d.nodes.any (·.id = id)

end Document

end MappingGraph
