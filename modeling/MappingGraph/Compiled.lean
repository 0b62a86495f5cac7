import MappingGraph.Build.Output
import MappingGraph.Checksum
import MappingGraph.Expr.Codec
import MappingGraph.Sanitation

/-!
# Compiled mappings

The outcome of a compilation as other programs read it: an expression for each field of the target,
the shared values they refer to, the schemas, the metadata, and the checksum of the document it was
made from.  `Compilation` adds what could not be built and the diagnostics.
-/

set_option autoImplicit false

namespace MappingGraph

/-- A value that is evaluated once and referred to by name. -/
structure SharedExpression where
  node : String
  varName : String
  expression : Expression
  /-- A friendlier name. -/
  hintName : Option String := none
  refCount : Nat
deriving Repr, Inhabited

/-- The value of a field of the target. -/
structure FieldMapping where
  targetPath : String
  expression : Expression
deriving Repr, Inhabited

/-- A compiled mapping. -/
structure CompiledMapping where
  mappings : List FieldMapping
  /-- Each refers to those before it only. -/
  shared : List SharedExpression := []
  schemas : Schemas
  metadata : Json
  checksum : Checksum
deriving Repr, Inhabited

/-- The outcome of compiling a document. -/
structure Compilation where
  output : CompiledMapping
  unbuilt : List UnbuiltNode
  diagnostics : Diagnostics
deriving Repr, Inhabited

namespace SharedExpression

def toJson (s : SharedExpression) : Json :=
  .object <|
    [("nodeId", .string s.node), ("varName", .string s.varName),
     ("expression", s.expression.toJson)] ++
      optionalMember "hintName" s.hintName ++ [("refCount", .ofNat s.refCount)]

def decode : Decoder SharedExpression :=
  (Fields.cons ⟨"nodeId", Decoder.string, none⟩
    (.cons ⟨"varName", Decoder.string, none⟩
      (.cons ⟨"expression", Expr.decode, none⟩
        (.cons ⟨"hintName", Decoder.optional Decoder.string, some none⟩
          (.cons ⟨"refCount", Decoder.natural, none⟩ .nil))))).decode
    "a shared expression"
    fun (node, varName, expression, hintName, refCount, _) =>
      ⟨node, varName, expression, hintName, refCount⟩

end SharedExpression

namespace FieldMapping

def toJson (m : FieldMapping) : Json :=
  .object [("targetPath", .string m.targetPath), ("expression", m.expression.toJson)]

def decode : Decoder FieldMapping :=
  (Fields.cons ⟨"targetPath", Decoder.string, none⟩
    (.cons ⟨"expression", Expr.decode, none⟩ .nil)).decode
    "a field mapping" fun (targetPath, expression, _) => ⟨targetPath, expression⟩

end FieldMapping

namespace Schemas

def toJson (s : Schemas) : Json := .object [("source", s.source), ("target", s.target)]

def decode : Decoder Schemas :=
  (Fields.cons ⟨"source", Decoder.json, none⟩ (.cons ⟨"target", Decoder.json, none⟩ .nil)).decode
    "schemas" fun (source, target, _) => ⟨source, target⟩

end Schemas

namespace CompiledMapping

/-- The first mapping for a field. -/
def mapping? (c : CompiledMapping) (targetPath : String) : Option FieldMapping :=
  c.mappings.find? (·.targetPath = targetPath)

/-- The shared value of a node. -/
def shared? (c : CompiledMapping) (node : String) : Option SharedExpression :=
  c.shared.find? (·.node = node)

def toJson (c : CompiledMapping) : Json :=
  .object <|
    [("mappings", .array (c.mappings.map FieldMapping.toJson))] ++
      (if c.shared.isEmpty then []
       else [("sharedExpressions", .array (c.shared.map SharedExpression.toJson))]) ++
      [("schemas", c.schemas.toJson), ("metadata", c.metadata), ("checksum", c.checksum.toJson)]

def decode : Decoder CompiledMapping :=
  (Fields.cons ⟨"mappings", Decoder.list FieldMapping.decode, none⟩
    (.cons ⟨"sharedExpressions", Decoder.list SharedExpression.decode, some []⟩
      (.cons ⟨"schemas", Schemas.decode, none⟩
        (.cons ⟨"metadata", Decoder.json, none⟩
          (.cons ⟨"checksum", Checksum.decode, none⟩ .nil))))).decode
    "a compiled mapping"
    fun (mappings, shared, schemas, metadata, checksum, _) =>
      ⟨mappings, shared, schemas, metadata, checksum⟩

end CompiledMapping

namespace UnbuiltReason

/-- The forms of a reason. -/
inductive Form where
  | cycle
  | missingInput
  | feederUnbuilt
deriving DecidableEq, Repr

/-- The names of the forms. -/
def Form.names : List (String × Form) :=
  [("cycle", cycle), ("missingInput", missingInput), ("upstreamUnbuilt", feederUnbuilt)]

def toJson : UnbuiltReason → Json
  | cycle => .object [("kind", .string "cycle")]
  | missingInput id => .object [("kind", .string "missingInput"), ("nodeId", .string id)]
  | feederUnbuilt id => .object [("kind", .string "upstreamUnbuilt"), ("nodeId", .string id)]

/-- Reads the member beside the name of a form. -/
def decodeContent : Form → Decoder UnbuiltReason
  | .cycle => fun _ d =>
    match d with
    | .null => .ok cycle
    | d => Decoder.refuse "no content" d
  | .missingInput => fun standing d => (Decoder.string standing d).map missingInput
  | .feederUnbuilt => fun standing d => (Decoder.string standing d).map feederUnbuilt

/-- The reason of a form that stands alone. -/
def ofForm? : Form → Except ReadFault UnbuiltReason
  | .cycle => .ok cycle
  | .missingInput | .feederUnbuilt => .error (.mismatch (.missingField "nodeId"))

/-- Passes over the remaining members, which must not be the form or its content again. -/
def refuseRepeated : List (DraftKey × Draft) → Except ReadFault Unit
  | [] => .ok ()
  | (key, d) :: ms => do
    let name ← Decoder.syntactic key.text?
    if name = "kind" || name = "nodeId" then .error (.mismatch (.duplicateField name))
    else
      Decoder.syntactic d.skip
      refuseRepeated ms

/-- Reads the members after the form. -/
def decodeAfterForm (standing : Standing) (form : Form) (ending : Ending) :
    List (DraftKey × Draft) → Except ReadFault UnbuiltReason
  | [] => do
    Decoder.syntactic ending.ofObject
    ofForm? form
  | (key, d) :: ms => do
    let name ← Decoder.syntactic key.text?
    if name = "kind" then .error (.mismatch (.duplicateField "kind"))
    else if name = "nodeId" then
      let reason ← decodeContent form standing d
      refuseRepeated ms
      Decoder.syntactic ending.ofObject
      return reason
    else
      Decoder.syntactic d.skip
      decodeAfterForm standing form ending ms

/-- Reads the members after the content, which could not be understood without the form. -/
def decodeAfterContent (standing : Standing) (content : Draft) (ending : Ending) :
    List (DraftKey × Draft) → Except ReadFault UnbuiltReason
  | [] => do
    Decoder.syntactic ending.ofObject
    .error (.mismatch (.missingField "kind"))
  | (key, d) :: ms => do
    let name ← Decoder.syntactic key.text?
    if name = "nodeId" then .error (.mismatch (.duplicateField "nodeId"))
    else if name = "kind" then
      let form ← Decoder.choice Form.names standing d
      let reason ← decodeContent form .gathered content
      refuseRepeated ms
      Decoder.syntactic ending.ofObject
      return reason
    else
      Decoder.syntactic d.skip
      decodeAfterContent standing content ending ms

/-- Reads the members of a reason up to the form or its content, whichever comes first. -/
def decodeMembers (standing : Standing) (ending : Ending) :
    List (DraftKey × Draft) → Except ReadFault UnbuiltReason
  | [] => do
    Decoder.syntactic ending.ofObject
    .error (.mismatch (.missingField "kind"))
  | (key, d) :: ms => do
    let name ← Decoder.syntactic key.text?
    if name = "kind" then
      let form ← Decoder.choice Form.names standing d
      decodeAfterForm standing form ending ms
    else if name = "nodeId" then
      let _ ← Decoder.syntactic (d.value? standing)
      decodeAfterContent standing d ending ms
    else
      Decoder.syntactic d.skip
      decodeMembers standing ending ms

/-- A reason is an object with its form under `kind` and the id under `nodeId`, or an array of the
two. -/
def decode : Decoder UnbuiltReason
  | standing, .object ms ending => do
    let inside ← Decoder.syntactic standing.enter
    decodeMembers inside ending ms
  | standing, .array xs ending => do
    let inside ← Decoder.syntactic standing.enter
    match xs with
    | [] =>
      Decoder.syntactic ending.ofArray
      .error (.mismatch (.wrongLength 0 "a reason"))
    | x :: xs =>
      let form ← Decoder.tag Form.names inside x
      match xs with
      | [] =>
        Decoder.syntactic ending.ofArray
        .error (.mismatch (.wrongLength 1 "a reason"))
      | content :: left =>
        let reason ← decodeContent form inside content
        Fields.refuseExtra inside 2 left ending
        return reason
  | _, d => Decoder.refuse "a reason" d

end UnbuiltReason

namespace UnbuiltNode

def toJson (u : UnbuiltNode) : Json :=
  .object [("nodeId", .string u.node), ("reason", u.reason.toJson)]

def decode : Decoder UnbuiltNode :=
  (Fields.cons ⟨"nodeId", Decoder.string, none⟩
    (.cons ⟨"reason", UnbuiltReason.decode, none⟩ .nil)).decode
    "an unbuilt node" fun (node, reason, _) => ⟨node, reason⟩

end UnbuiltNode

namespace Compilation

def toJson (c : Compilation) : Json :=
  .object
    [("output", c.output.toJson), ("unbuilt", .array (c.unbuilt.map UnbuiltNode.toJson)),
     ("diagnostics", c.diagnostics.toJson)]

end Compilation

end MappingGraph
