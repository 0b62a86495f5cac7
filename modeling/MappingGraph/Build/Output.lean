import MappingGraph.Build.Rules
import MappingGraph.Build.Schedule

/-!
# Building a graph

Every node of the schedule gets its expression, which refers to other nodes by placeholders.  Every
other node is left unbuilt, for one of three reasons: it lies on a cycle; it has an input from an id
that names no node; or it feeds on a node that was not built either.
-/

set_option autoImplicit false

namespace MappingGraph

/-- Why a node was not built. -/
inductive UnbuiltReason where
  | cycle
  /-- An input comes from this id, which names no node. -/
  | missingInput (id : String)
  /-- An input comes from this node, which was not built. -/
  | feederUnbuilt (id : String)
deriving DecidableEq, Repr, Inhabited

/-- A node that was not built. -/
structure UnbuiltNode where
  node : String
  reason : UnbuiltReason
deriving DecidableEq, Repr, Inhabited

namespace UnbuiltNode

def diagnostic (u : UnbuiltNode) : Diagnostic :=
  match u.reason with
  | .cycle => .cyclicDependency u.node
  | .missingInput id => .missingInput u.node id
  | .feederUnbuilt id => .feederUnbuilt u.node id

end UnbuiltNode

/-- What building a graph gives. -/
structure BuildOutput where
  /-- The built nodes with their expressions, each after those it feeds on. -/
  built : List (String × BuiltExpr)
  /-- The other nodes, in the order of the document. -/
  unbuilt : List UnbuiltNode
deriving Repr, Inhabited

namespace BuildOutput

/-- The built nodes in their order. -/
def order (out : BuildOutput) : List String := out.built.map (·.1)

def expr? (out : BuildOutput) (id : String) : Option BuiltExpr :=
  (out.built.find? (·.1 = id)).map (·.2)

def isBuilt (out : BuildOutput) (id : String) : Bool := out.built.any (·.1 = id)

end BuildOutput

namespace Graph

/-- The expression of a node of the graph. -/
def exprOf (g : Graph) (registry : Registry) (node : Node) : BuiltExpr :=
  node.build registry (Inputs.collect (g.incoming node.id))

/-- Why a node outside of the schedule was not built. -/
def unbuiltReason (g : Graph) (built : List String) (id : String) : UnbuiltReason :=
  if g.onCycle id then .cycle
  else
    match g.missingInput? id with
    | some missing => .missingInput missing
    | none => .feederUnbuilt (((g.inputIds id).find? (· ∉ built)).getD "")

/-- The nodes outside of the schedule. -/
def unbuilt (g : Graph) (built : List String) : List UnbuiltNode :=
  (g.ids.filter (· ∉ built)).map fun id => ⟨id, g.unbuiltReason built id⟩

/-- Builds the graph with the kinds of a registry. -/
def build (g : Graph) (registry : Registry) : BuildOutput :=
  let order := g.schedule
  { built := (order.filterMap g.node?).map fun node => (node.id, g.exprOf registry node)
    unbuilt := g.unbuilt order }

/-- What there is to report about building: first the built nodes in their order, then the
others. -/
def buildDiagnostics (g : Graph) (registry : Registry) : List Diagnostic :=
  let order := g.schedule
  (order.filterMap g.node?).flatMap (·.buildDiagnostics registry) ++
    (g.unbuilt order).map UnbuiltNode.diagnostic

end Graph

end MappingGraph
