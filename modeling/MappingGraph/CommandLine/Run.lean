import MappingGraph.CommandLine.Arguments
import MappingGraph.Compiler
import MappingGraph.Document.Load
import MappingGraph.Settings.Load

/-!
# Running the command line

`CommandLine.run` does what its arguments ask: it loads settings and a document, compiles it,
reports the diagnostics on the standard error, and prints the outcome or writes it to a file.
Whatever stops it is told on the standard error together with what it was about.
-/

set_option autoImplicit false

namespace MappingGraph.CommandLine

/-- How a run of the program ended. -/
structure Outcome where
  code : Nat := 0
  stdout : String := ""
  stderr : String := ""
deriving DecidableEq, Repr

namespace Outcome

/-- The outcome of a run that was stopped: an activity and what stopped it, from the outside in. -/
def stopped (activity : String) (causes : List String) (reported : String := "") : Outcome where
  code := 1
  stderr := reported ++ "Error: " ++ String.intercalate ": " (activity :: causes) ++ "\n"

/-- The outcome for arguments that are not accepted. -/
def refused (fault : UsageFault) : Outcome where
  code := 2
  stderr := "error: " ++ fault.message ++ "\n\n" ++ usage

end Outcome

namespace Arguments

/-- The settings with those of the command line laid over them. -/
def applyTo (a : Arguments) (s : Settings) : Settings where
  options := { s.options with hoistShared := s.options.hoistShared && !a.noHoist }
  output :=
    { format := if a.compact then .compact else s.output.format
      includeDiagnostics := s.output.includeDiagnostics || a.diagnostics }

end Arguments

/-- What is told when the outcome of a compilation was written to a file. -/
def summary (input output : String) (c : Compilation) : String :=
  let counts := Json.object
    [("mappings", .ofNat c.output.mappings.length),
     ("sharedExpressions", .ofNat c.output.shared.length),
     ("unbuilt", .ofNat c.unbuilt.length)]
  "✅ Compiled " ++ input ++ " -> " ++ output ++ " " ++ counts.compact ++ "\n"

variable {m : Type → Type} [Monad m]

/-- Prints the outcome of a compilation, or writes it to a file. -/
def deliver (files : FileAccess m) (a : Arguments) (s : Settings) (c : Compilation) :
    m Outcome := do
  let reported := c.diagnostics.report
  let rendered := s.output.render c
  match a.output with
  | none => return { stdout := rendered ++ "\n", stderr := reported }
  | some path =>
    match ← files.write path (Text.toBytes rendered) with
    | .ok () => return { stdout := summary a.input path c, stderr := reported }
    | .error fault => return .stopped ("writing " ++ path) [fault.message] reported

/-- Compiles a document as the arguments say. -/
def compile (around : Surroundings m) (a : Arguments) : m Outcome := do
  match ← Settings.load around a.config with
  | .error fault => return .stopped "loading configuration" [fault.message]
  | .ok loaded =>
    let settings := a.applyTo loaded
    match ← Document.load around.files a.input with
    | .error fault => return .stopped ("reading " ++ a.input) fault.causes
    | .ok d => deliver around.files a settings (Compiler.compile { options := settings.options } d)

/-- Runs the program with its arguments. -/
def run (around : Surroundings m) (args : List String) : m Outcome := do
  match Request.ofArguments args with
  | .error fault => return .refused fault
  | .ok .help => return { stdout := usage }
  | .ok (.compile a) => compile around a

end MappingGraph.CommandLine
