import MappingGraph.Json.Printer
import MappingGraph.Json.Record

/-!
# Diagnostics

Compiling never fails.  What had to be dropped or replaced on the way is reported instead, one
diagnostic a case: about which node or edge, of which sort, in which words.  The sort decides the
code that is shown and how grave the case is.
-/

set_option autoImplicit false

namespace MappingGraph

/-- How grave a diagnostic is. -/
inductive Severity where
  | info
  | warning
  | error
deriving DecidableEq, Repr, Inhabited

namespace Severity

/-- The severity as it is shown. -/
def text : Severity → String
  | info => "info"
  | warning => "warning"
  | error => "error"

/-- The severities by name, the gravest last. -/
def names : List (String × Severity) := [("Info", info), ("Warning", warning), ("Error", error)]

def name : Severity → String
  | info => "Info"
  | warning => "Warning"
  | error => "Error"

def rank : Severity → Nat
  | info => 0
  | warning => 1
  | error => 2

def toJson (s : Severity) : Json := .string s.name

def decode : Decoder Severity := Decoder.choice names

end Severity

/-- What a diagnostic is about. -/
inductive DiagnosticCode where
  /-- An edge leads to a node that does not exist. -/
  | orphanEdge
  /-- An edge leads to a field that its schema does not have. -/
  | unresolvedHandle
  /-- A node lies on a cycle. -/
  | cyclicDependency
  /-- A node has an input from a node that does not exist. -/
  | missingInput
  /-- A node has an input from a node that was not built. -/
  | feederUnbuilt
  /-- A node is of a kind that may not be used. -/
  | unknownOperation
  /-- A template is not well formed. -/
  | invalidTemplate
  /-- A constant is not of its declared type. -/
  | malformedConstant
  /-- The value of a node that was not built is used. -/
  | unbuildableReference
deriving DecidableEq, Repr, Inhabited

namespace DiagnosticCode

/-- The code as it is shown. -/
def text : DiagnosticCode → String
  | orphanEdge => "W001"
  | unresolvedHandle => "W002"
  | cyclicDependency => "E001"
  | missingInput => "W003"
  | feederUnbuilt => "I001"
  | unknownOperation => "W004"
  | invalidTemplate => "W005"
  | malformedConstant => "I002"
  | unbuildableReference => "W006"

def severity : DiagnosticCode → Severity
  | cyclicDependency => .error
  | feederUnbuilt | malformedConstant => .info
  | _ => .warning

/-- The codes by name. -/
def names : List (String × DiagnosticCode) :=
  [("OrphanEdge", orphanEdge), ("UnresolvedHandle", unresolvedHandle),
   ("CyclicDependency", cyclicDependency), ("MissingInput", missingInput),
   ("UpstreamUnbuilt", feederUnbuilt), ("UnknownOperation", unknownOperation),
   ("InvalidTemplate", invalidTemplate), ("MalformedConstant", malformedConstant),
   ("UnbuildableReference", unbuildableReference)]

def name : DiagnosticCode → String
  | orphanEdge => "OrphanEdge"
  | unresolvedHandle => "UnresolvedHandle"
  | cyclicDependency => "CyclicDependency"
  | missingInput => "MissingInput"
  | feederUnbuilt => "UpstreamUnbuilt"
  | unknownOperation => "UnknownOperation"
  | invalidTemplate => "InvalidTemplate"
  | malformedConstant => "MalformedConstant"
  | unbuildableReference => "UnbuildableReference"

def toJson (c : DiagnosticCode) : Json := .string c.name

def decode : Decoder DiagnosticCode := Decoder.choice names

end DiagnosticCode

/-- A case that was dropped or replaced. -/
structure Diagnostic where
  /-- The id of the node or edge. -/
  subject : String
  code : DiagnosticCode
  message : String
  /-- More about the case, each on a line of its own. -/
  context : List String := []
deriving DecidableEq, Repr, Inhabited

namespace Diagnostic

def severity (d : Diagnostic) : Severity := d.code.severity

/-- An edge was dropped because a node it leads to does not exist. -/
def orphanEdge (edge missing : String) : Diagnostic where
  subject := edge
  code := .orphanEdge
  message := "Edge references missing endpoint '" ++ missing ++ "', removed"

/-- An edge was dropped because its schema has no such field. -/
def unresolvedHandle (edge handle side : String) : Diagnostic where
  subject := edge
  code := .unresolvedHandle
  message := "Handle '" ++ handle ++ "' not found in " ++ side ++ " schema, edge removed"
  context := ["Side: " ++ side]

/-- A node was not built because it lies on a cycle. -/
def cyclicDependency (node : String) : Diagnostic where
  subject := node
  code := .cyclicDependency
  message := "Node '" ++ node ++ "' is part of a dependency cycle, compiled to null"

/-- A node was not built because it has an input from a node that does not exist. -/
def missingInput (node missing : String) : Diagnostic where
  subject := node
  code := .missingInput
  message := "Node '" ++ node ++ "' has an input from missing node '" ++ missing ++ "'"

/-- A node was not built because it has an input from a node that was not. -/
def feederUnbuilt (node feeder : String) : Diagnostic where
  subject := node
  code := .feederUnbuilt
  message := "Node '" ++ node ++ "' depends on unbuilt node '" ++ feeder ++ "'"

/-- A node is null because its kind is not registered. -/
def unavailableOperation (node kind : String) : Diagnostic where
  subject := node
  code := .unknownOperation
  message := "Operation '" ++ kind ++ "' is not available, compiled to null"

/-- A node is null because there is no rule for its kind. -/
def unknownOperation (node kind : String) : Diagnostic where
  subject := node
  code := .unknownOperation
  message := "Unknown operation '" ++ kind ++ "', compiled to null"

/-- A template is used although it is not well formed. -/
def invalidTemplate (node template reason : String) : Diagnostic where
  subject := node
  code := .invalidTemplate
  message := "Template '" ++ template ++ "' is invalid: " ++ reason

/-- A constant is kept as text because it is not of its declared type. -/
def malformedConstant (node reason config : String) : Diagnostic where
  subject := node
  code := .malformedConstant
  message := "Constant kept as plain text: " ++ reason
  context := ["Config: " ++ config]

/-- A use of a node is null because the node was not built. -/
def unbuildableReference (node : String) : Diagnostic where
  subject := node
  code := .unbuildableReference
  message := "Reference to unbuilt node '" ++ node ++ "' compiled to null"

/-- The diagnostic as it is shown. -/
def text (d : Diagnostic) : String :=
  "[" ++ d.code.text ++ "] " ++ d.severity.text ++ ": " ++ d.message ++ " (" ++ d.subject ++ ")" ++
    String.join (d.context.map fun line => "\n  - " ++ line)

def toJson (d : Diagnostic) : Json :=
  .object <|
    [("subject", .string d.subject), ("code", d.code.toJson), ("message", .string d.message)] ++
      if d.context.isEmpty then [] else [("context", .array (d.context.map Json.string))]

def decode : Decoder Diagnostic :=
  (Fields.cons ⟨"subject", Decoder.string, none⟩
    (.cons ⟨"code", DiagnosticCode.decode, none⟩
      (.cons ⟨"message", Decoder.string, none⟩
        (.cons ⟨"context", Decoder.list Decoder.string, some []⟩ .nil)))).decode
    "a diagnostic" fun (subject, code, message, context, _) => ⟨subject, code, message, context⟩

end Diagnostic

/-- The diagnostics of a compilation, in the order in which the cases were met. -/
structure Diagnostics where
  items : List Diagnostic := []
deriving DecidableEq, Repr, Inhabited

namespace Diagnostics

/-- The diagnostics of a severity. -/
def ofSeverity (ds : Diagnostics) (severity : Severity) : List Diagnostic :=
  ds.items.filter (·.severity = severity)

/-- The diagnostics with a code. -/
def withCode (ds : Diagnostics) (code : DiagnosticCode) : List Diagnostic :=
  ds.items.filter (·.code = code)

def errorCount (ds : Diagnostics) : Nat := (ds.ofSeverity .error).length

def warningCount (ds : Diagnostics) : Nat := (ds.ofSeverity .warning).length

def hasErrors (ds : Diagnostics) : Bool := ds.items.any (·.severity = .error)

/-- The gravest severity there is. -/
def worst? (ds : Diagnostics) : Option Severity :=
  ds.items.foldl
    (fun worst d =>
      match worst with
      | some s => if s.rank ≤ d.severity.rank then some d.severity else some s
      | none => some d.severity)
    none

/-- The count at the end of a report: warnings, and errors if there are any. -/
def summary (ds : Diagnostics) : String :=
  let warnings := Text.natText ds.warningCount ++ " warning(s)\n"
  if ds.hasErrors then "\n" ++ Text.natText ds.errorCount ++ " error(s), " ++ warnings
  else if ds.items.isEmpty then ""
  else "\n" ++ warnings

/-- The report of all diagnostics, one after the other, and their count. -/
def report (ds : Diagnostics) : String :=
  String.join (ds.items.map fun d => d.text ++ "\n") ++ ds.summary

def toJson (ds : Diagnostics) : Json :=
  .object [("items", .array (ds.items.map Diagnostic.toJson))]

def decode : Decoder Diagnostics :=
  (Fields.cons ⟨"items", Decoder.list Diagnostic.decode, none⟩ .nil).decode "diagnostics"
    fun (items, _) => ⟨items⟩

end Diagnostics

end MappingGraph
