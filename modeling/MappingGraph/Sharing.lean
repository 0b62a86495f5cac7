import MappingGraph.Build.Output
import MappingGraph.Options

/-!
# Which values are shared

A value is named and evaluated once instead of at each of its uses when that pays and is safe:

* it is used at least twice;
* its kind is pure;
* its expression costs at least as much as the options ask;
* it does not enter a field inside an array of the target.  Such a value is computed for each item
  anew, so it is not shared even where it is used outside of the array.

The name of a shared value is made of the node's id.  Different ids may give one name, and then a
number is appended.
-/

set_option autoImplicit false

namespace MappingGraph

/-- A node whose value is shared. -/
structure SharedNode where
  node : String
  varName : String
  refCount : Nat
deriving DecidableEq, Repr, Inhabited

/-- The shared nodes in the order in which they were built. -/
structure Sharing where
  nodes : List SharedNode
deriving Repr, Inhabited

namespace Sharing

def find? (s : Sharing) (id : String) : Option SharedNode := s.nodes.find? (·.node = id)

def contains (s : Sharing) (id : String) : Bool := (s.find? id).isSome

/-- The name of a shared value. -/
def varName? (s : Sharing) (id : String) : Option String := (s.find? id).map (·.varName)

/-! ## Names -/

/-- What every name begins with. -/
def namePrefix : String := "shared_"

/-- The name for a node: its id with every character replaced that is no ASCII letter or digit. -/
def varNameFor (id : String) : String :=
  namePrefix ++ String.ofList (id.toList.map fun c => if c.isAlphanum then c else '_')

/-- The name with a number from two on appended. -/
def numbered (base : String) (k : Nat) : String := base ++ "_" ++ Text.natText (k + 2)

/-- The base itself, or the base with the least number, that is not taken.  One of the numbers up to
the count of the taken names must be free. -/
def freeName (base : String) (taken : List String) : String :=
  ((base :: (List.range taken.length).map (numbered base)).find? (· ∉ taken)).getD base

end Sharing

namespace Graph

/-- The nodes whose value enters a field inside an array of the target. -/
def arrayScoped (g : Graph) : List String :=
  let inArray := g.targetEdges.filter fun e => Handle.isArrayPath e.targetPath
  g.ancestors (inArray.filterMap (·.source.node?))

/-- Whether the value of a built node is worth sharing and may be shared. -/
def isShareable (g : Graph) (registry : Registry) (minCost : Nat) (excluded : List String)
    (id : String) (e : BuiltExpr) : Bool :=
  2 ≤ g.refCount id && ((g.node? id).any fun n => registry.isPure n.kind) && id ∉ excluded &&
    minCost ≤ e.cost

/-- Names the nodes that are shared, one after the other. -/
def nameShared (g : Graph) : (taken : List String) → List String → List SharedNode
  | _, [] => []
  | taken, id :: ids =>
    let name := Sharing.freeName (Sharing.varNameFor id) taken
    ⟨id, name, g.refCount id⟩ :: nameShared g (name :: taken) ids

/-- The shared nodes of a graph that was built. -/
def sharing (g : Graph) (out : BuildOutput) (registry : Registry) (options : Options) : Sharing :=
  if options.hoistShared then
    let excluded := g.arrayScoped
    let chosen := out.built.filter fun (id, e) =>
      g.isShareable registry options.minHoistCost excluded id e
    ⟨g.nameShared [] (chosen.map (·.1))⟩
  else ⟨[]⟩

end Graph

end MappingGraph
