import MappingGraph.Document.Basic

/-!
# The graph of a document

A graph has the nodes of a document, of several with one id only the first, and all of its edges.
The edges into and out of a node are looked up by its id.  An edge may still lead to an id that
names no node; it is then among the edges of the other end and nowhere else.

A node *feeds on* the nodes its incoming edges start at, and is *consumed by* those its outgoing
edges end at.  Parallel edges count each.
-/

set_option autoImplicit false

namespace MappingGraph

/-- The nodes and edges of a document, no two nodes with one id. -/
structure Graph where
  nodes : List Node
  edges : List Edge
deriving Repr, Inhabited

namespace Graph

/-- The nodes without those whose id appeared before. -/
def firstById : List Node → List Node
  | [] => []
  | n :: ns => n :: (firstById ns).filter (·.id ≠ n.id)

def ofDocument (d : Document) : Graph := ⟨firstById d.nodes, d.edges⟩

def ids (g : Graph) : List String := g.nodes.map (·.id)

def node? (g : Graph) (id : String) : Option Node := g.nodes.find? (·.id = id)

def hasNode (g : Graph) (id : String) : Bool := g.nodes.any (·.id = id)

/-- The position of a node. -/
def index? (g : Graph) (id : String) : Option Nat := g.nodes.findIdx? (·.id = id)

/-- The edges that end at a node, in the order of the document. -/
def incoming (g : Graph) (id : String) : List Edge := g.edges.filter (·.target = .node id)

/-- The edges that start at a node, in the order of the document. -/
def outgoing (g : Graph) (id : String) : List Edge := g.edges.filter (·.source = .node id)

/-- The edges that end at the target schema, in the order of the document. -/
def targetEdges (g : Graph) : List Edge := g.edges.filter (·.target = .target)

/-- The two ends of an edge between nodes of the graph. -/
def linkOf? (g : Graph) (e : Edge) : Option (String × String) := do
  let tail ← e.source.node?
  let head ← e.target.node?
  if g.hasNode tail && g.hasNode head then some (tail, head) else none

/-- The edges between nodes of the graph, with their positions among all edges. -/
def links (g : Graph) : List (String × String × Nat) :=
  g.edges.zipIdx.filterMap fun (e, i) =>
    (g.linkOf? e).map fun (tail, head) => (tail, head, i)

/-- The ids that the edges into a node start at, whether they name nodes or not. -/
def inputIds (g : Graph) (id : String) : List String :=
  (g.incoming id).filterMap (·.source.node?)

/-- The nodes that a node feeds on. -/
def feeders (g : Graph) (id : String) : List String := (g.inputIds id).filter g.hasNode

/-- The nodes that a node is consumed by. -/
def consumers (g : Graph) (id : String) : List String :=
  ((g.outgoing id).filterMap (·.target.node?)).filter g.hasNode

/-- The first id that an edge into the node starts at and that names no node. -/
def missingInput? (g : Graph) (id : String) : Option String :=
  (g.inputIds id).find? (!g.hasNode ·)

/-- How often the value of a node is used: its edges into other nodes and the target schema. -/
def refCount (g : Graph) (id : String) : Nat :=
  ((g.outgoing id).filter (·.target ≠ .source)).length

end Graph

end MappingGraph
