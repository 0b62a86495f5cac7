import MappingGraph.Graph.Basic

/-!
# The index of a document

An index holds what is looked up in a document, so that nothing has to be searched for twice.  Nodes
stand at positions, and an id leads to the position of its node.  Edges stand in one table under the
node they end at and in another under the node they start at.  Those between two nodes are also
links, from position to position.

The index is filled by going through the nodes and then through the edges.  Of several nodes with
one id only the first is taken up.  An edge goes into the tables whether its ends name nodes or not,
but makes a link only if both do.
-/

set_option autoImplicit false

namespace MappingGraph

/-- Edges, each under the id of a node. -/
abbrev EdgeTable := List (String × List Edge)

namespace EdgeTable

/-- The edges under an id, in the order in which they came in. -/
def row (id : String) : EdgeTable → List Edge
  | [] => []
  | (key, es) :: t => if key = id then es else row id t

/-- Puts an edge at the end of the row of an id. -/
def push (id : String) (e : Edge) : EdgeTable → EdgeTable
  | [] => [(id, [e])]
  | (key, es) :: t => if key = id then (key, es ++ [e]) :: t else (key, es) :: push id e t

/-- Enters an edge under one of its ends, if that is a node. -/
def enter (t : EdgeTable) (ending : Endpoint) (e : Edge) : EdgeTable :=
  match ending.node? with
  | some id => push id e t
  | none => t

end EdgeTable

/-- A connection between two nodes. -/
structure Index.Link where
  /-- The position of the node where the edge starts. -/
  tail : Nat
  /-- The position of the node where the edge ends. -/
  head : Nat
  /-- The position of the edge among those of the document. -/
  edge : Nat
deriving DecidableEq, Repr, Inhabited

/-- The nodes and edges of a document, to be looked up. -/
structure Index where
  /-- The nodes at their positions. -/
  nodes : List Node := []
  /-- The ids with the positions of their nodes. -/
  positions : List (String × Nat) := []
  links : List Index.Link := []
  incomingTable : EdgeTable := []
  outgoingTable : EdgeTable := []
  /-- The edges that end at the target schema. -/
  targetEdges : List Edge := []
deriving Repr, Inhabited

namespace Index

/-! ## Looking up -/

/-- The position of the node with an id. -/
def index? (x : Index) (id : String) : Option Nat := x.positions.lookup id

def contains (x : Index) (id : String) : Bool := (x.index? id).isSome

/-- The node at a position. -/
def node? (x : Index) (position : Nat) : Option Node := x.nodes[position]?

/-- The id of the node at a position. -/
def idAt? (x : Index) (position : Nat) : Option String := (x.node? position).map (·.id)

def incoming (x : Index) (id : String) : List Edge := x.incomingTable.row id

def outgoing (x : Index) (id : String) : List Edge := x.outgoingTable.row id

/-- The links that end at a position. -/
def linksInto (x : Index) (position : Nat) : List Link := x.links.filter (·.head = position)

/-- The links that start at a position. -/
def linksFrom (x : Index) (position : Nat) : List Link := x.links.filter (·.tail = position)

def inDegree (x : Index) (position : Nat) : Nat := (x.linksInto position).length

/-! ## Filling -/

/-- Takes up a node, unless its id is taken. -/
def addNode (x : Index) (n : Node) : Index :=
  if x.contains n.id then x
  else { x with nodes := x.nodes ++ [n], positions := (n.id, x.nodes.length) :: x.positions }

/-- The link that an edge makes. -/
def link? (x : Index) (e : Edge) (position : Nat) : Option Link := do
  let tail ← e.source.node?.bind x.index?
  let head ← e.target.node?.bind x.index?
  return ⟨tail, head, position⟩

/-- Takes up the edge at a position of the document. -/
def addEdge (x : Index) (e : Edge) (position : Nat) : Index :=
  { x with
    links := x.links ++ (x.link? e position).toList
    incomingTable := x.incomingTable.enter e.target e
    outgoingTable := x.outgoingTable.enter e.source e
    targetEdges := if e.target = .target then x.targetEdges ++ [e] else x.targetEdges }

def ofDocument (d : Document) : Index :=
  d.edges.zipIdx.foldl (fun x (e, position) => x.addEdge e position) (d.nodes.foldl addNode {})

end Index

end MappingGraph
