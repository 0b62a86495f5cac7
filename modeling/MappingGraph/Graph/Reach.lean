import MappingGraph.Graph.Basic

/-!
# What is reached in a graph

`gather` collects what can be reached from some starting points by steps inside a finite catalogue.
Everything taken up is struck off the catalogue, so each point is taken up once and the search ends,
cycles or not.
-/

set_option autoImplicit false

namespace MappingGraph.Graph

/-- The points of the catalogue that are reached from the pending ones, in the order in which they
are met. -/
def gather (next : String → List String) (catalogue pending : List String) : List String :=
  match pending with
  | [] => []
  | a :: rest =>
    if a ∈ catalogue then a :: gather next (catalogue.erase a) (next a ++ rest)
    else gather next catalogue rest
termination_by (catalogue.length, pending.length)
decreasing_by
  · have h := List.length_erase_of_mem ‹a ∈ catalogue›
    have : 0 < catalogue.length := List.length_pos_of_mem ‹a ∈ catalogue›
    exact Prod.Lex.left _ _ (by omega)
  · exact Prod.Lex.right _ (by simp)

/-- The nodes that are reached from a node by one or more edges between nodes. -/
def dependents (g : Graph) (id : String) : List String :=
  gather g.consumers g.ids (g.consumers id)

/-- Whether the node lies on a cycle of edges between nodes. -/
def onCycle (g : Graph) (id : String) : Bool := id ∈ g.dependents id

/-- The nodes whose value enters the given nodes, and those themselves. -/
def ancestors (g : Graph) (starts : List String) : List String :=
  gather g.feeders g.ids starts

end MappingGraph.Graph
