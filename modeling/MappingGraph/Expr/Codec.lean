import MappingGraph.Expr.Basic
import MappingGraph.Json.Record

/-!
# Expressions as JSON

An expression is an object whose member `type` names its form.  A reference lists its own members
beside the tag.  `Expr.toJson` and `Expr.decode` are the two directions.

Decoding recurses into the members of the object, and a draft is only so deep: the depth is the
budget of the recursion, which therefore never runs out.
-/

set_option autoImplicit false

namespace MappingGraph

/-- How references are written and read. -/
class ReferenceFormat (ρ : Type) where
  /-- The members that stand beside the tag. -/
  members : ρ → Members
  decode : Decoder ρ

instance : ReferenceFormat Placeholder where
  members r := [("nodeId", .string r.node)]
  decode :=
    (Fields.cons ⟨"nodeId", Decoder.string, none⟩ .nil).decode "a reference"
      fun (node, _) => ⟨node⟩

instance : ReferenceFormat SharedRef where
  members r := [("nodeId", .string r.node), ("varName", .string r.varName)]
  decode :=
    (Fields.cons ⟨"nodeId", Decoder.string, none⟩
      (.cons ⟨"varName", Decoder.string, none⟩ .nil)).decode "a reference"
      fun (node, varName, _) => ⟨node, varName⟩

namespace Expr

variable {ρ : Type} [ReferenceFormat ρ]

/-- The expression as a JSON value. -/
def toJson : Expr ρ → Json
  | literal value type =>
    .object [("type", .string "literal"), ("value", value), ("valueType", .string type.name)]
  | field path => .object [("type", .string "field"), ("path", .string path)]
  | binary op left right =>
    .object [("type", .string "binary"), ("op", .string op.name), ("left", left.toJson),
      ("right", right.toJson)]
  | unary op operand =>
    .object [("type", .string "unary"), ("op", .string op.name), ("operand", operand.toJson)]
  | call function args config =>
    .object <|
      [("type", .string "call"), ("function", .string function), ("args", .array (listToJson args))]
        ++ config.toList.map fun c => ("config", c)
  | conditional condition yes no =>
    .object [("type", .string "conditional"), ("condition", condition.toJson),
      ("then", yes.toJson), ("else", no.toJson)]
  | array elements =>
    .object [("type", .string "array"), ("elements", .array (listToJson elements))]
  | object entries =>
    .object [("type", .string "object"), ("entries", .array (entriesToJson entries))]
  | reference target => .object (("type", .string "reference") :: ReferenceFormat.members target)
where
  listToJson : List (Expr ρ) → List Json
    | [] => []
    | x :: xs => x.toJson :: listToJson xs
  entriesToJson : List (String × Expr ρ) → List Json
    | [] => []
    | (key, x) :: es =>
      .object [("key", .string key), ("value", x.toJson)] :: entriesToJson es

/-- The forms of an expression. -/
inductive Form where
  | literal
  | field
  | binary
  | unary
  | call
  | conditional
  | array
  | object
  | reference
deriving DecidableEq, Repr

/-- The names of the forms in their order. -/
def Form.names : List (String × Form) :=
  [("literal", literal), ("field", field), ("binary", binary), ("unary", unary), ("call", call),
   ("conditional", conditional), ("array", array), ("object", object), ("reference", reference)]

/-- An entry of an object expression. -/
def decodeEntry (expr : Decoder (Expr ρ)) : Decoder (String × Expr ρ) :=
  (Fields.cons ⟨"key", Decoder.string, none⟩ (.cons ⟨"value", expr, none⟩ .nil)).decode
    "an entry" fun (key, value, _) => (key, value)

/-- Reads what stands beside the tag of a form; `expr` reads the expressions inside. -/
def decodeContent (expr : Decoder (Expr ρ)) : Form → Decoder (Expr ρ)
  | .literal =>
    (Fields.cons ⟨"value", Decoder.json, none⟩
      (.cons ⟨"valueType", Decoder.choice LiteralType.names, none⟩ .nil)).decode
      "a literal expression" fun (value, type, _) => literal value type
  | .field =>
    (Fields.cons ⟨"path", Decoder.string, none⟩ .nil).decode "a field expression"
      fun (path, _) => field path
  | .binary =>
    (Fields.cons ⟨"op", Decoder.choice BinaryOp.names, none⟩
      (.cons ⟨"left", expr, none⟩ (.cons ⟨"right", expr, none⟩ .nil))).decode
      "a binary expression" fun (op, left, right, _) => binary op left right
  | .unary =>
    (Fields.cons ⟨"op", Decoder.choice UnaryOp.names, none⟩
      (.cons ⟨"operand", expr, none⟩ .nil)).decode
      "a unary expression" fun (op, operand, _) => unary op operand
  | .call =>
    (Fields.cons ⟨"function", Decoder.string, none⟩
      (.cons ⟨"args", Decoder.list expr, none⟩
        (.cons ⟨"config", Decoder.optional Decoder.json, some none⟩ .nil))).decode
      "a call expression" fun (function, args, config, _) => call function args config
  | .conditional =>
    (Fields.cons ⟨"condition", expr, none⟩
      (.cons ⟨"then", expr, none⟩ (.cons ⟨"else", expr, none⟩ .nil))).decode
      "a conditional expression" fun (c, y, n, _) => conditional c y n
  | .array =>
    (Fields.cons ⟨"elements", Decoder.list expr, none⟩ .nil).decode "an array expression"
      fun (elements, _) => array elements
  | .object =>
    (Fields.cons ⟨"entries", Decoder.list (decodeEntry expr), none⟩ .nil).decode
      "an object expression" fun (entries, _) => object entries
  | .reference => fun standing d => (ReferenceFormat.decode standing d).map reference

/-- Reads an expression nested at most so deep. -/
def decodeWithin : (budget : Nat) → Decoder (Expr ρ)
  | 0 => fun _ _ => .error (.syntaxFault .tooDeep)
  | budget + 1 =>
    Decoder.tagged "type" Form.names "an expression"
      (decodeContent (decodeWithin budget))

/-- Reads an expression. -/
def decode : Decoder (Expr ρ) := fun standing d => decodeWithin (d.depth + 1) standing d

end Expr

end MappingGraph
