import MappingGraph.Json.MergePatch
import MappingGraph.Schema.Locate

/-!
# Schema overlays

An overlay changes a schema at a handle without touching the schema's own file: the schema that the
handle names is changed by a merge patch.  The overlays of one side are applied in their order, each
to the outcome of those before it, and one whose handle names nothing is passed over.
-/

set_option autoImplicit false

namespace MappingGraph

/-- Which of the two schemas of a document is meant. -/
inductive Side where
  | source
  | target
deriving DecidableEq, Repr, Inhabited

namespace Side

def name : Side → String
  | source => "source"
  | target => "target"

def all : List Side := [source, target]

end Side

/-- A change to one of the schemas. -/
structure Overlay where
  side : Side
  path : String
  patch : Json
deriving Repr, Inhabited

namespace Overlay

/-- Where in a schema the overlay applies. -/
def place? (o : Overlay) (schema : Json) : Option Place :=
  (Handle.parse? o.path).bind (Schema.locate? · schema)

/-- The schema as the overlay changes it. -/
def apply (schema : Json) (o : Overlay) : Json :=
  match o.place? schema with
  | some place => (schema.modify? place.pointer o.patch.mergePatch).getD schema
  | none => schema

/-- The overlays of a side. -/
def onSide (side : Side) (overlays : List Overlay) : List Overlay :=
  overlays.filter (·.side = side)

/-- Whether the schema is left as it is: it is `null`, or no overlay is meant for its side. -/
def leaves (overlays : List Overlay) (side : Side) (schema : Json) : Bool :=
  schema.isNull || (onSide side overlays).isEmpty

/-- The schema of a side with its overlays applied. -/
def applyAll (overlays : List Overlay) (side : Side) (schema : Json) : Json :=
  if leaves overlays side schema then schema else (onSide side overlays).foldl apply schema

end Overlay

end MappingGraph
