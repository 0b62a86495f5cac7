import MappingGraph.Graph.Reach

/-!
# The order of building

A node is ready once every node it feeds on has been built; edges from the source schema never hold
it up.  Ready nodes wait in a queue.  At first it has the nodes without any node to feed on, in the
order of the document; a node that becomes ready goes to the end, and of several that become ready
at once the one reached by the latest edge goes first.

A node with an input from an id that names no node is never ready, and neither is a node on a cycle
or behind one.
-/

set_option autoImplicit false

namespace MappingGraph.Graph

/-- Whether everything that the node feeds on is among the built. -/
def isReady (g : Graph) (built : List String) (id : String) : Bool :=
  (g.inputIds id).all (· ∈ built)

/-- The nodes that become ready when a node is built as the last of the built. -/
def released (g : Graph) (built : List String) (id : String) : List String :=
  ((g.consumers id).eraseDups.reverse).filter (g.isReady built)

/-- Builds what is in the queue.  No node enters the queue twice, so that as many steps as there are
nodes suffice. -/
def scheduleFrom (g : Graph) : (steps : Nat) → (queue built : List String) → List String
  | 0, _, built => built
  | _ + 1, [], built => built
  | steps + 1, id :: queue, built =>
    let built := built ++ [id]
    scheduleFrom g steps (queue ++ g.released built id) built

/-- The nodes that can be built, each after those it feeds on. -/
def schedule (g : Graph) : List String :=
  scheduleFrom g g.nodes.length (g.ids.filter (g.isReady [])) []

end MappingGraph.Graph
