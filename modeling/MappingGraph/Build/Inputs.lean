import MappingGraph.Expr.Basic
import MappingGraph.Graph.Basic

/-!
# The inputs of a node

The inputs of a node are ordered by the position `N` in the handle `input-<N>` of their edges.
Edges with the same position keep the order of the document, and edges without a position come last.

An operation takes its operands from the ordered list, so what counts is the rank of an edge.
-/

set_option autoImplicit false

namespace MappingGraph.Inputs

/-- The edge comes before every one that it may stand in front of. -/
def insertEdge (position : Nat) (e : Edge) : List (Nat × Edge) → List (Nat × Edge)
  | [] => [(position, e)]
  | (p, f) :: rest =>
    if position ≤ p then (position, e) :: (p, f) :: rest
    else (p, f) :: insertEdge position e rest

/-- The edges with a position, in ascending order; equal ones in the order of the list. -/
def positioned : List Edge → List (Nat × Edge)
  | [] => []
  | e :: es =>
    match e.inputIndex? with
    | some position => insertEdge position e (positioned es)
    | none => positioned es

/-- The edges in the order of the inputs. -/
def ordered (edges : List Edge) : List Edge :=
  (positioned edges).map (·.2) ++ edges.filter (·.inputIndex?.isNone)

/-- The expression that an edge brings in. -/
def ofEdge (e : Edge) : BuiltExpr :=
  match e.source with
  | .source => .field (Handle.cleanPath e.sourcePath)
  | .node id => .reference ⟨id⟩
  | .target => .null

/-- The input expressions of a node in their order. -/
def collect (edges : List Edge) : List BuiltExpr := (ordered edges).map ofEdge

/-- The input of a rank; null if there is none. -/
def atRank (inputs : List BuiltExpr) (rank : Nat) : BuiltExpr := inputs[rank]?.getD .null

end MappingGraph.Inputs
