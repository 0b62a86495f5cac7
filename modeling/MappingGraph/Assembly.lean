import MappingGraph.Compiled
import MappingGraph.Hint
import MappingGraph.Resolution

/-!
# Assembling the output

Every edge into the target schema becomes a field mapping.  Of the shared values those are kept that
a mapping refers to, directly or through other shared values, in the order in which their nodes were
built.
-/

set_option autoImplicit false

namespace MappingGraph

/-- The mappings and shared values of a compiled graph. -/
structure Assembly where
  mappings : List FieldMapping
  shared : List SharedExpression
deriving Repr, Inhabited

namespace Graph

/-- What an edge brings into its field of the target. -/
def mappingExpr (r : Resolver) (e : Edge) : StateM ResolverState Expression :=
  match e.source with
  | .source => pure (.field (Handle.cleanPath e.sourcePath))
  | .node id => r.resolve id
  | .target => pure .null

/-- The mapping of an edge into the target schema. -/
def fieldMapping (r : Resolver) (e : Edge) : StateM ResolverState FieldMapping := do
  let expression ← mappingExpr r e
  return ⟨Handle.cleanPath e.targetPath, expression⟩

/-- A friendlier name for the value of a node: from its label, or else from what its kind is called
in front of people. -/
def hintName? (g : Graph) (registry : Registry) (id : String) : Option String := do
  let node ← g.node? id
  (node.label.bind Hint.ofLabel?) <|>
    ((registry.find? node.kind).bind fun info => Hint.ofLabel? info.displayName)

/-- The value of a shared node. -/
def sharedExpression (g : Graph) (registry : Registry) (r : Resolver) (s : SharedNode) :
    StateM ResolverState SharedExpression := do
  let expression ← r.inline s.node
  return ⟨s.node, s.varName, expression, g.hintName? registry s.node, s.refCount⟩

/-- The nodes of shared values that an expression refers to. -/
def refNodes (e : Expression) : List String := e.refs.map (·.node)

/-- The nodes of the shared values that the mappings refer to, directly or not. -/
def live (mappings : List FieldMapping) (shared : List SharedExpression) : List String :=
  let next := fun id => (shared.filter (·.node = id)).flatMap fun s => refNodes s.expression
  gather next (shared.map (·.node)) (mappings.flatMap fun m => refNodes m.expression)

/-- Resolves the mappings and then the shared values. -/
def assemble (g : Graph) (out : BuildOutput) (sharing : Sharing) (registry : Registry) :
    StateM ResolverState Assembly := do
  let r := Resolver.of out sharing
  let mappings ← g.targetEdges.mapM (fieldMapping r)
  let shared ← sharing.nodes.mapM (g.sharedExpression registry r)
  let kept := live mappings shared
  return ⟨mappings, shared.filter (·.node ∈ kept)⟩

end Graph

end MappingGraph
