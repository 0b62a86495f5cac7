import MappingGraph.Proofs.Operation.Registry
import MappingGraph.Proofs.Upstream

/-!
# The shape of a graph

In what order nodes are built, and which are left out and why, is a question of the edges and of the
ids of the nodes.  What the nodes are does not come into it: not their kinds, labels and settings,
and neither does the registry.  Two graphs of one shape (`Graph.SameShape`) may build quite different
expressions, but they schedule alike.  The two runs of the queue go in lockstep: in every step the
same nodes are released (`Graph.SameShape.released`), so the whole runs are the same
(`Graph.SameShape.scheduleFrom`).

A kind matters to the nodes of this kind only, since other nodes refer to them by id.  So taking it
out of the registry makes these nodes null and leaves all others as they are
(`Graph.unregisters_erase`).
-/

set_option autoImplicit false

namespace MappingGraph

/-- The documents have the same ids of nodes, in the same order, and the same edges. -/
structure Document.SameShape (d e : Document) : Prop where
  ids : d.nodes.map Node.id = e.nodes.map Node.id
  edges : d.edges = e.edges

namespace Graph

variable {g h : Graph} {registry : Registry} {kind : Kind} {id : String}

/-- The graphs have the same ids of nodes, in the same order, and the same edges. -/
structure SameShape (g h : Graph) : Prop where
  ids : g.ids = h.ids
  edges : g.edges = h.edges

/-- Which ids are kept, and in what order, can be told from the ids. -/
theorem sameShape_ofDocument {d e : Document} (hs : d.SameShape e) :
    SameShape (ofDocument d) (ofDocument e) where
  ids := by rw [ids, ids, ofDocument, ofDocument, map_id_firstById, map_id_firstById, hs.ids]
  edges := hs.edges

/-! ## The two runs -/

namespace SameShape

theorem incoming (hs : SameShape g h) : g.incoming = h.incoming := by
  funext id
  rw [Graph.incoming, Graph.incoming, hs.edges]

theorem outgoing (hs : SameShape g h) : g.outgoing = h.outgoing := by
  funext id
  rw [Graph.outgoing, Graph.outgoing, hs.edges]

theorem inputIds (hs : SameShape g h) : g.inputIds = h.inputIds := by
  funext id
  rw [Graph.inputIds, Graph.inputIds, hs.incoming]

theorem hasNode (hs : SameShape g h) : g.hasNode = h.hasNode := by
  funext id
  rw [Bool.eq_iff_iff, ← mem_ids_iff, ← mem_ids_iff, hs.ids]

theorem feeders (hs : SameShape g h) : g.feeders = h.feeders := by
  funext id
  rw [Graph.feeders, Graph.feeders, hs.inputIds, hs.hasNode]

theorem consumers (hs : SameShape g h) : g.consumers = h.consumers := by
  funext id
  rw [Graph.consumers, Graph.consumers, hs.outgoing, hs.hasNode]

/-- A node that is built releases the same nodes. -/
theorem released (hs : SameShape g h) (built : List String) (id : String) :
    g.released built id = h.released built id := by
  have hready : g.isReady built = h.isReady built := by
    funext i
    rw [isReady, isReady, hs.inputIds]
  rw [Graph.released, Graph.released, hs.consumers, hready]

/-- **The queues run in lockstep.** -/
theorem scheduleFrom (hs : SameShape g h) (steps : Nat) (queue built : List String) :
    g.scheduleFrom steps queue built = h.scheduleFrom steps queue built := by
  induction steps generalizing queue built with
  | zero => rfl
  | succ steps ih =>
    cases queue with
    | nil => rfl
    | cons id queue => rw [Graph.scheduleFrom, Graph.scheduleFrom, hs.released, ih]

theorem schedule (hs : SameShape g h) : g.schedule = h.schedule := by
  have hlength : g.nodes.length = h.nodes.length := by
    simpa only [Graph.ids, List.length_map] using congrArg List.length hs.ids
  have hready : g.isReady [] = h.isReady [] := by
    funext i
    rw [isReady, isReady, hs.inputIds]
  rw [Graph.schedule, Graph.schedule, hlength, hs.ids, hready, hs.scheduleFrom]

theorem arrayScoped (hs : SameShape g h) : g.arrayScoped = h.arrayScoped := by
  rw [Graph.arrayScoped, Graph.arrayScoped, ancestors, ancestors, targetEdges, targetEdges,
    hs.edges, hs.feeders, hs.ids]

theorem refCount (hs : SameShape g h) : g.refCount = h.refCount := by
  funext id
  rw [Graph.refCount, Graph.refCount, hs.outgoing]

/-- The same nodes are left out, each for the same reason. -/
theorem unbuilt (hs : SameShape g h) (built : List String) : g.unbuilt built = h.unbuilt built := by
  have hcycle : g.onCycle = h.onCycle := by
    funext id
    rw [onCycle, onCycle, dependents, dependents, hs.consumers, hs.ids]
  have hmissing : g.missingInput? = h.missingInput? := by
    funext id
    rw [missingInput?, missingInput?, hs.inputIds, hs.hasNode]
  have hreason : g.unbuiltReason built = h.unbuiltReason built := by
    funext id
    rw [unbuiltReason, unbuiltReason, hcycle, hmissing, hs.inputIds]
  rw [Graph.unbuilt, Graph.unbuilt, hs.ids, hreason]

end SameShape

/-- Building goes the same way with each graph and its registry. -/
structure SchedulesAlike (g h : Graph) (registry other : Registry) : Prop where
  order : (g.build registry).order = (h.build other).order
  unbuilt : (g.build registry).unbuilt = (h.build other).unbuilt
  arrayScoped : g.arrayScoped = h.arrayScoped
  refCount : ∀ id, g.refCount id = h.refCount id

theorem SameShape.schedulesAlike (hs : SameShape g h) (registry other : Registry) :
    SchedulesAlike g h registry other where
  order := by rw [order_build, order_build, hs.schedule]
  unbuilt := by rw [build, build, hs.schedule, hs.unbuilt]
  arrayScoped := hs.arrayScoped
  refCount := congrFun hs.refCount

/-! ## Taking out a kind -/

theorem exprOf_erase_self {node : Node} (hkind : node.kind = kind) :
    g.exprOf (registry.erase kind) node = .null := by
  rw [exprOf, Node.build, Registry.contains, Registry.find?_erase, if_pos hkind.symm]
  rfl

theorem exprOf_erase_of_ne {node : Node} (hkind : node.kind ≠ kind) :
    g.exprOf (registry.erase kind) node = g.exprOf registry node := by
  rw [exprOf, exprOf, Node.build, Node.build, Registry.contains, Registry.contains,
    Registry.find?_erase, if_neg (Ne.symm hkind)]

/-- What becomes of the built expressions if the kind is taken out of the registry. -/
structure Unregisters (g : Graph) (registry : Registry) (kind : Kind) : Prop where
  null : ∀ id node, g.node? id = some node → node.kind = kind → id ∈ (g.build registry).order →
    (g.build (registry.erase kind)).expr? id = some .null
  /-- This includes all ids that name no node or one that is not built. -/
  other : ∀ id, (∀ node, g.node? id = some node → node.kind ≠ kind) →
    (g.build (registry.erase kind)).expr? id = (g.build registry).expr? id

theorem unregisters_erase (g : Graph) (registry : Registry) (kind : Kind) :
    g.Unregisters registry kind where
  null id node hnode hkind hid := by
    rw [order_build] at hid
    rw [expr?_build, if_pos hid, hnode, Option.map_some, exprOf_erase_self hkind]
  other id hkind := by
    rw [expr?_build, expr?_build]
    cases hnode : g.node? id with
    | none => rfl
    | some node => rw [Option.map_some, Option.map_some, exprOf_erase_of_ne (hkind node hnode)]

/-- **Building follows the shape of a document** and not what its nodes are.  Taking a kind out of
the registry touches the nodes of this kind only. -/
theorem build_followsShape {d e : Document} (hs : d.SameShape e) (registry other : Registry) :
    SchedulesAlike (ofDocument d) (ofDocument e) registry other ∧
      ∀ kind, (ofDocument d).Unregisters registry kind ∧
        SchedulesAlike (ofDocument d) (ofDocument d) registry (registry.erase kind) := by
  refine ⟨(sameShape_ofDocument hs).schedulesAlike registry other, fun kind ↦ ⟨?_, ?_⟩⟩
  · exact unregisters_erase _ registry kind
  · exact SameShape.schedulesAlike ⟨rfl, rfl⟩ registry _

/-- A price with a cycle and a dangling edge beside it. -/
def priceWithCycle : Document where
  nodes := [⟨"net", .constant, none, .object [("value", .string "1")]⟩,
    ⟨"gross", .add, some "Gross", .null⟩, ⟨"a", .concat, none, .null⟩, ⟨"b", .not, none, .null⟩,
    ⟨"net", .now, none, .null⟩, ⟨"late", .abs, none, .null⟩]
  edges := [⟨"e1", .node "net", none, .node "gross", some "input-0"⟩,
    ⟨"e2", .node "a", none, .node "b", some "input-0"⟩,
    ⟨"e3", .node "b", none, .node "a", some "input-0"⟩,
    ⟨"e4", .node "gone", none, .node "late", some "input-0"⟩,
    ⟨"e5", .node "gross", none, .target, some "$.lines[].gross"⟩]

/-- A document of the same shape in which every node is another. -/
def nowWithCycle : Document where
  nodes := [⟨"net", .now, some "Clock", .null⟩, ⟨"gross", .uppercase, none, .null⟩,
    ⟨"a", .customFunction, none, .bool true⟩, ⟨"b", .unknown "x", none, .null⟩,
    ⟨"net", .add, none, .null⟩, ⟨"late", .switch, none, .null⟩]
  edges := priceWithCycle.edges

theorem build_followsShape_cycle :
    priceWithCycle.SameShape nowWithCycle ∧
      SchedulesAlike (ofDocument priceWithCycle) (ofDocument nowWithCycle) .standard .empty := by
  have hs : priceWithCycle.SameShape nowWithCycle := ⟨rfl, rfl⟩
  exact ⟨hs, (build_followsShape hs .standard .empty).1⟩

end Graph

end MappingGraph
