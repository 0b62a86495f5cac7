import MappingGraph.Compiled
import MappingGraph.Options

/-!
# Settings

How documents are compiled and how the outcome is printed.  Settings have two written forms: JSON,
and the two sections of a settings file.
-/

set_option autoImplicit false

namespace MappingGraph

/-- How JSON is laid out. -/
inductive OutputFormat where
  /-- One item or member a line, indented. -/
  | pretty
  /-- On one line, without blanks. -/
  | compact
deriving DecidableEq, Repr, Inhabited

namespace OutputFormat

def name : OutputFormat → String
  | pretty => "pretty"
  | compact => "compact"

def all : List OutputFormat := [pretty, compact]

def toJson (f : OutputFormat) : Json := .string f.name

def decode : Decoder OutputFormat := Decoder.choice (all.map fun f => (f.name, f))

/-- Prints a value in the format. -/
def render : OutputFormat → Json → String
  | pretty, v => v.pretty
  | compact, v => v.compact

end OutputFormat

/-- How the outcome is printed. -/
structure OutputSettings where
  format : OutputFormat := .pretty
  /-- Whether diagnostics and nodes that were not built are printed as well. -/
  includeDiagnostics : Bool := false
deriving DecidableEq, Repr, Inhabited

namespace OutputSettings

def toJson (o : OutputSettings) : Json :=
  .object [("format", o.format.toJson), ("include_diagnostics", .bool o.includeDiagnostics)]

def decode : Decoder OutputSettings :=
  (Fields.cons ⟨"format", OutputFormat.decode, some .pretty⟩
    (.cons ⟨"include_diagnostics", Decoder.bool, some false⟩ .nil)).decode
    "output settings" fun (format, includeDiagnostics, _) => ⟨format, includeDiagnostics⟩

/-- Prints the outcome of a compilation as the settings say. -/
def render (o : OutputSettings) (c : Compilation) : String :=
  o.format.render (if o.includeDiagnostics then c.toJson else c.output.toJson)

end OutputSettings

/-- All settings. -/
structure Settings where
  options : Options := {}
  output : OutputSettings := {}
deriving DecidableEq, Repr, Inhabited

namespace Settings

def toJson (s : Settings) : Json :=
  .object [("compiler", s.options.toJson), ("output", s.output.toJson)]

def decode : Decoder Settings :=
  (Fields.cons ⟨"compiler", Options.decode, some {}⟩
    (.cons ⟨"output", OutputSettings.decode, some {}⟩ .nil)).decode
    "settings" fun (options, output, _) => ⟨options, output⟩

def switchText : Bool → String
  | true => "true"
  | false => "false"

/-- The text of a settings file.  Its integers have 64 bits with a sign, so there is none for a
larger cost. -/
def fileText? (s : Settings) : Option String :=
  if Number.maxSigned < s.options.minHoistCost then none
  else
    some <|
      "[compiler]\nhoist_shared = " ++ switchText s.options.hoistShared ++
      "\nmin_hoist_cost = " ++ Text.natText s.options.minHoistCost ++
      "\n\n[output]\nformat = \"" ++ s.output.format.name ++
      "\"\ninclude_diagnostics = " ++ switchText s.output.includeDiagnostics ++ "\n"

end Settings

end MappingGraph
