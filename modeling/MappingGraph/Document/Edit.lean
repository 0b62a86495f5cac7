import MappingGraph.Document.Basic

/-!
# Editing documents

The steps that an editor offers.  None of them looks after the rest of the document: a node may be
removed while edges still lead to it, and an id may be used twice.  What does not make sense at the
moment is passed over when the document is compiled.
-/

set_option autoImplicit false

namespace MappingGraph

/-- A change to a document. -/
inductive Edit where
  | addNode (node : Node)
  /-- Removes every node with the id. -/
  | removeNode (id : String)
  /-- Sets the kind of every node with the id. -/
  | setKind (id : String) (kind : Kind)
  | setConfig (id : String) (config : Json)
  | setLabel (id : String) (label : Option String)
  | addEdge (edge : Edge)
  /-- Removes every edge with the id. -/
  | removeEdge (id : String)
  /-- Moves the first edge with the id to the end. -/
  | moveEdge (id : String)
  | addOverlay (overlay : Overlay)
  | clearOverlays
  | setSchema (side : Side) (schema : Json)
  | setMetadata (metadata : Json)
deriving Repr, Inhabited

namespace Document

/-- The document with every node changed that has the id. -/
def modifyNodes (d : Document) (id : String) (change : Node → Node) : Document :=
  { d with nodes := d.nodes.map fun n => if n.id = id then change n else n }

/-- The edges with the first one that has the id at the end. -/
def moveToEnd (edges : List Edge) (id : String) : List Edge :=
  match edges.find? (·.id = id) with
  | some e => edges.eraseP (·.id = id) ++ [e]
  | none => edges

/-- The document after a change. -/
def edit (d : Document) : Edit → Document
  | .addNode node => { d with nodes := d.nodes ++ [node] }
  | .removeNode id => { d with nodes := d.nodes.filter (·.id ≠ id) }
  | .setKind id kind => d.modifyNodes id fun n => { n with kind }
  | .setConfig id config => d.modifyNodes id fun n => { n with config }
  | .setLabel id label => d.modifyNodes id fun n => { n with label }
  | .addEdge edge => { d with edges := d.edges ++ [edge] }
  | .removeEdge id => { d with edges := d.edges.filter (·.id ≠ id) }
  | .moveEdge id => { d with edges := moveToEnd d.edges id }
  | .addOverlay overlay => { d with overlays := d.overlays ++ [overlay] }
  | .clearOverlays => { d with overlays := [] }
  | .setSchema .source schema => { d with sourceSchema := schema }
  | .setSchema .target schema => { d with targetSchema := schema }
  | .setMetadata metadata => { d with metadata }

end Document

end MappingGraph
