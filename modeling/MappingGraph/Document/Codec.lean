import MappingGraph.Document.Basic
import MappingGraph.Json.Printer
import MappingGraph.Json.Record

/-!
# Documents as JSON

Each part of a document is written with its members in a fixed order; a missing label or handle and
an empty list of overlays are left out.  Reading takes the members in any order, supplies what may
be missing, and passes over members it does not know.
-/

set_option autoImplicit false

namespace MappingGraph

namespace Kind

def toJson (k : Kind) : Json := .string k.name

def decode : Decoder Kind := fun standing d => (Decoder.string standing d).map ofName

end Kind

namespace Endpoint

def toJson (e : Endpoint) : Json := .string e.id

def decode : Decoder Endpoint := fun standing d => (Decoder.string standing d).map ofId

end Endpoint

namespace Side

def toJson (side : Side) : Json := .string side.name

def decode : Decoder Side := Decoder.choice (all.map fun side => (side.name, side))

end Side

/-- A member that is left out when there is no value. -/
def optionalMember (key : String) (value : Option String) : Members :=
  value.toList.map fun s => (key, .string s)

namespace Overlay

def toJson (o : Overlay) : Json :=
  .object [("side", o.side.toJson), ("path", .string o.path), ("patch", o.patch)]

def decode : Decoder Overlay :=
  (Fields.cons ⟨"side", Side.decode, none⟩
    (.cons ⟨"path", Decoder.string, none⟩
      (.cons ⟨"patch", Decoder.json, none⟩ .nil))).decode
    "struct SchemaOverlay" fun (side, path, patch, _) => ⟨side, path, patch⟩

end Overlay

namespace Node

def toJson (n : Node) : Json :=
  .object <|
    [("id", .string n.id), ("kind", n.kind.toJson)] ++ optionalMember "label" n.label ++
      [("config", n.config)]

def decode : Decoder Node :=
  (Fields.cons ⟨"id", Decoder.string, none⟩
    (.cons ⟨"kind", Kind.decode, none⟩
      (.cons ⟨"label", Decoder.optional Decoder.string, some none⟩
        (.cons ⟨"config", Decoder.json, some .null⟩ .nil)))).decode
    "struct FunctoidNode" fun (id, kind, label, config, _) => ⟨id, kind, label, config⟩

end Node

namespace Edge

def toJson (e : Edge) : Json :=
  .object <|
    [("id", .string e.id), ("source", e.source.toJson)] ++
      optionalMember "sourceHandle" e.sourceHandle ++ [("target", e.target.toJson)] ++
      optionalMember "targetHandle" e.targetHandle

def decode : Decoder Edge :=
  (Fields.cons ⟨"id", Decoder.string, some ""⟩
    (.cons ⟨"source", Endpoint.decode, none⟩
      (.cons ⟨"sourceHandle", Decoder.optional Decoder.string, some none⟩
        (.cons ⟨"target", Endpoint.decode, none⟩
          (.cons ⟨"targetHandle", Decoder.optional Decoder.string, some none⟩ .nil))))).decode
    "struct MappingEdge"
    fun (id, start, startHandle, stop, stopHandle, _) =>
      ⟨id, start, startHandle, stop, stopHandle⟩

end Edge

namespace Document

def toJson (d : Document) : Json :=
  .object <|
    [("nodes", .array (d.nodes.map Node.toJson)), ("edges", .array (d.edges.map Edge.toJson)),
     ("sourceSchema", d.sourceSchema), ("targetSchema", d.targetSchema)] ++
      (if d.overlays.isEmpty then []
       else [("schemaOverlays", .array (d.overlays.map Overlay.toJson))]) ++
      [("metadata", d.metadata)]

def decode : Decoder Document :=
  (Fields.cons ⟨"nodes", Decoder.list Node.decode, some []⟩
    (.cons ⟨"edges", Decoder.list Edge.decode, some []⟩
      (.cons ⟨"sourceSchema", Decoder.json, some .null⟩
        (.cons ⟨"targetSchema", Decoder.json, some .null⟩
          (.cons ⟨"schemaOverlays", Decoder.list Overlay.decode, some []⟩
            (.cons ⟨"metadata", Decoder.json, some .null⟩ .nil)))))).decode
    "struct MappingDocument"
    fun (nodes, edges, sourceSchema, targetSchema, overlays, metadata, _) =>
      ⟨nodes, edges, sourceSchema, targetSchema, overlays, metadata⟩

/-- The document written in a text. -/
def ofText? (text : String) : Except ReadFault Document := Decoder.ofText? decode text

/-- The document without any layout. -/
def text (d : Document) : String := d.toJson.compact

end Document

end MappingGraph
