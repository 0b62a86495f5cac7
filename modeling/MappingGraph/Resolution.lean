import MappingGraph.Sharing

/-!
# Resolving placeholders

Every placeholder of a built expression is resolved: a shared node becomes a reference to its shared
value, any other node is replaced by its own expression, resolved in the same way.  A node that was
not built is null, and this is reported.

A node may be met at many places.  The first resolution is remembered and used again, so that the
work is done and the report is made once for each node.

A placeholder leads to a node that was built earlier.  The recursion runs along the build order: an
expression is resolved with the nodes before it, which is why it ends.
-/

set_option autoImplicit false

namespace MappingGraph

/-- What was resolved so far, and what there was to report. -/
structure ResolverState where
  inlined : List (String × Expression) := []
  reports : List Diagnostic := []
deriving Repr, Inhabited

namespace ResolverState

def find? (s : ResolverState) (id : String) : Option Expression :=
  (s.inlined.find? (·.1 = id)).map (·.2)

def remember (s : ResolverState) (id : String) (e : Expression) : ResolverState :=
  { s with inlined := (id, e) :: s.inlined }

def report (s : ResolverState) (d : Diagnostic) : ResolverState :=
  { s with reports := s.reports ++ [d] }

end ResolverState

/-- The expressions and shared nodes that placeholders are resolved by. -/
structure Resolver where
  /-- The built nodes, the latest first. -/
  latestFirst : List (String × BuiltExpr)
  sharing : Sharing

namespace Resolver

def of (out : BuildOutput) (sharing : Sharing) : Resolver := ⟨out.built.reverse, sharing⟩

/-- Resolves a node as `inline` says, unless it is shared. -/
def resolveBy (sharing : Sharing) (inline : String → StateM ResolverState Expression)
    (id : String) : StateM ResolverState Expression :=
  match sharing.varName? id with
  | some varName => pure (.reference ⟨id, varName⟩)
  | none => inline id

/-- Looks up what was resolved before, and remembers what is resolved now. -/
def remembering (id : String) (inline : StateM ResolverState Expression) :
    StateM ResolverState Expression := do
  match (← get).find? id with
  | some e => return e
  | none =>
    let e ← inline
    modify (·.remember id e)
    return e

/-- The expression of a node, resolved with the nodes before it. -/
def inlineAmong (sharing : Sharing) :
    List (String × BuiltExpr) → String → StateM ResolverState Expression
  | [], id => do
    modify (·.report (.unbuildableReference id))
    return .null
  | (n, e) :: earlier, id =>
    if n = id then
      e.mapRefsM fun p =>
        resolveBy sharing (fun i => remembering i (inlineAmong sharing earlier i)) p.node
    else inlineAmong sharing earlier id

/-- The node's own expression with all placeholders resolved. -/
def inline (r : Resolver) (id : String) : StateM ResolverState Expression :=
  remembering id (inlineAmong r.sharing r.latestFirst id)

/-- What a use of the node becomes. -/
def resolve (r : Resolver) (id : String) : StateM ResolverState Expression :=
  resolveBy r.sharing r.inline id

/-- An expression with all placeholders resolved. -/
def expand (r : Resolver) (e : BuiltExpr) : StateM ResolverState Expression :=
  e.mapRefsM fun p => r.resolve p.node

end Resolver

end MappingGraph
