import MappingGraph.Build.Inputs
import MappingGraph.Constant
import MappingGraph.Diagnostic
import MappingGraph.Operation.Registry
import MappingGraph.Template

/-!
# Construction rules

How the expression of a node is made of its inputs and its settings.  `Kind.rule` sorts the kinds by
the way they are built; `Rule.build` has one case for each way.  A node of a kind that the registry
does not have is null.
-/

set_option autoImplicit false

namespace MappingGraph

/-- A way of building an expression. -/
inductive Rule where
  | binary (op : BinaryOp)
  | unary (op : UnaryOp)
  | concat
  | template
  /-- A call with so many inputs and then one argument for each named setting. -/
  | namedCall (positional : Nat) (settings : List String)
  | conditional
  | defaultValue
  | switch
  | constant
  | customCall
  /-- A call with all inputs. -/
  | plainCall
  /-- There is no way. -/
  | missing
deriving DecidableEq, Repr

/-- The way in which a kind is built. -/
def Kind.rule : Kind → Rule
  | .add => .binary .add
  | .subtract => .binary .subtract
  | .multiply => .binary .multiply
  | .divide => .binary .divide
  | .modulo => .binary .modulo
  | .power => .binary .power
  | .equal => .binary .equal
  | .notEqual => .binary .notEqual
  | .lessThan => .binary .lessThan
  | .lessThanOrEqual => .binary .lessThanOrEqual
  | .greaterThan => .binary .greaterThan
  | .greaterThanOrEqual => .binary .greaterThanOrEqual
  | .and => .binary .and
  | .or => .binary .or
  | .not => .unary .not
  | .negate => .unary .negate
  | .abs => .unary .abs
  | .ceil => .unary .ceil
  | .floor => .unary .floor
  | .round => .unary .round
  | .sqrt => .unary .sqrt
  | .concat => .concat
  | .template => .template
  | .substring => .namedCall 1 ["start", "length"]
  | .replace => .namedCall 1 ["search", "replacement"]
  | .split => .namedCall 1 ["delimiter"]
  | .join => .namedCall 1 ["separator"]
  | .formatDate => .namedCall 1 ["format"]
  | .parseDate => .namedCall 1 ["format"]
  | .addDays => .namedCall 1 ["days"]
  | .dateDiff => .namedCall 2 ["unit"]
  | .conditional => .conditional
  | .defaultValue => .defaultValue
  | .switch => .switch
  | .constant => .constant
  | .customFunction => .customCall
  | .unknown _ => .missing
  | .uppercase | .lowercase | .trim | .length | .count | .sum | .average | .min | .max | .first
  | .last | .distinct | .flatten | .sort | .reverse | .toString | .toNumber | .toInteger
  | .toBoolean | .now => .plainCall

namespace Rule

/-- A setting as a literal; null does not count as set. -/
def setting? (config : Json) (key : String) : Option BuiltExpr :=
  ((config.get? key).filter (!·.isNull)).map .ofJson

/-- The operands one after the other, grouped to the right; nothing at all is the empty string. -/
def concatChain : List BuiltExpr → BuiltExpr
  | [] => .string ""
  | [x] => x
  | x :: xs => .binary .concat x (concatChain xs)

/-- The argument for a named setting: the input at its rank, else the setting, else null. -/
def argument (config : Json) (inputs : List BuiltExpr) (rank : Nat) (key : String) : BuiltExpr :=
  (inputs[rank]? <|> setting? config key).getD .null

/-- The arguments of a call: leading inputs, then one for each named setting. -/
def arguments (config : Json) (inputs : List BuiltExpr) (positional : Nat)
    (settings : List String) : List BuiltExpr :=
  (List.range positional).map (Inputs.atRank inputs) ++
    settings.zipIdx.map fun (key, i) => argument config inputs (positional + i) key

/-- The text of a template node; empty if none is set. -/
def templateText (config : Json) : String := (config.getString? "template").getD ""

/-- What stands for a part of a template: the input of a parameter is that of its rank among the
parameters, and a parameter without input is empty. -/
def partExpr (params : List String) (inputs : List BuiltExpr) : Template.Part → BuiltExpr
  | .text s => .string s
  | .param name => ((params.idxOf? name).bind (inputs[·]?)).getD (.string "")

/-- The parts of a template one after the other. -/
def templateExpr (text : String) (inputs : List BuiltExpr) : BuiltExpr :=
  if text.isEmpty then .string ""
  else concatChain ((Template.split text).map (partExpr (Template.params text) inputs))

/-- The first input unless it is null, and a fallback otherwise. -/
def defaultExpr (config : Json) (inputs : List BuiltExpr) : BuiltExpr :=
  let value := Inputs.atRank inputs 0
  .conditional (.binary .notEqual value .null) value (argument config inputs 1 "defaultValue")

/-- The value that a case of a switch stands for: its member `value`, or the case itself. -/
def caseValue (case : Json) : Json := (case.get? "value").getD case

/-- The values of the cases that a switch compares with. -/
def cases (config : Json) : List Json :=
  (((config.get? "cases").bind Json.items?).getD []).map caseValue

/-- Compares with one case after the other; the input of a case stands at its rank. -/
def switchFrom (inputs : List BuiltExpr) : (rank : Nat) → List Json → BuiltExpr
  | rank, [] => Inputs.atRank inputs rank
  | rank, c :: cs =>
    .conditional (.binary .equal (Inputs.atRank inputs 0) (.ofJson c)) (Inputs.atRank inputs rank)
      (switchFrom inputs (rank + 1) cs)

/-- The input of the first case that equals input 0, or the one after the inputs of all cases. -/
def switchExpr (config : Json) (inputs : List BuiltExpr) : BuiltExpr :=
  switchFrom inputs 1 (cases config)

/-- A constant, or its text if it is not of its declared type. -/
def constantExpr (config : Json) : BuiltExpr :=
  match Constant.parse? config with
  | .ok e => e
  | .error _ => Constant.fallback config

/-- The function that a node calls. -/
def functionName (config : Json) : String :=
  (config.getString? "functionName").getD "customFunction"

/-- The expression of a node with its inputs. -/
def build (rule : Rule) (node : Node) (inputs : List BuiltExpr) : BuiltExpr :=
  match rule with
  | binary op => .binary op (Inputs.atRank inputs 0) (Inputs.atRank inputs 1)
  | unary op => .unary op (Inputs.atRank inputs 0)
  | concat => concatChain inputs
  | template => templateExpr (templateText node.config) inputs
  | namedCall positional settings =>
    .call node.kind.name (arguments node.config inputs positional settings) none
  | conditional =>
    .conditional (Inputs.atRank inputs 0) (Inputs.atRank inputs 1) (Inputs.atRank inputs 2)
  | defaultValue => defaultExpr node.config inputs
  | switch => switchExpr node.config inputs
  | constant => constantExpr node.config
  | customCall => .call (functionName node.config) inputs (some node.config)
  | plainCall => .call node.kind.name inputs none
  | missing => .null

/-- What there is to report about a node built this way. -/
def diagnostics (rule : Rule) (node : Node) : List Diagnostic :=
  match rule with
  | template =>
    let text := templateText node.config
    if text.isEmpty then []
    else
      match Template.fault? text with
      | some fault => [.invalidTemplate node.id text fault.message]
      | none => []
  | constant =>
    match (Constant.parse? node.config : Except Constant.Fault BuiltExpr) with
    | .ok _ => []
    | .error fault => [.malformedConstant node.id fault.message node.config.compact]
  | missing => [.unknownOperation node.id node.kind.name]
  | _ => []

end Rule

namespace Node

/-- The expression of a node with its inputs; null if its kind is not registered. -/
def build (registry : Registry) (node : Node) (inputs : List BuiltExpr) : BuiltExpr :=
  if registry.contains node.kind then node.kind.rule.build node inputs else .null

/-- What there is to report when the node is built. -/
def buildDiagnostics (registry : Registry) (node : Node) : List Diagnostic :=
  if registry.contains node.kind then node.kind.rule.diagnostics node
  else [.unavailableOperation node.id node.kind.name]

end Node

end MappingGraph
