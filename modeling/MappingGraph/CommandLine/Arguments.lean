/-!
# Arguments of the command line

The program takes the path of a document and a few options.  Arguments are read from left to right,
and the first that cannot be accepted decides; so a request for help counts only if everything
before it is in order.  An option is given once, and its value may be attached or come next:
`-o path`, `-opath`, `-o=path`, `--output path`, `--output=path`.  After `--` everything is taken as
it stands.
-/

set_option autoImplicit false

namespace MappingGraph.CommandLine

/-- What the program is asked to do with a document. -/
structure Arguments where
  /-- The path of the document. -/
  input : String
  /-- The path of the file to write, if not to the standard output. -/
  output : Option String := none
  /-- The path of a settings file. -/
  config : Option String := none
  compact : Bool := false
  diagnostics : Bool := false
  noHoist : Bool := false
deriving DecidableEq, Repr

/-- What the program is asked to do. -/
inductive Request where
  | help
  | compile (arguments : Arguments)
deriving DecidableEq, Repr

/-- Why arguments are not accepted. -/
inductive UsageFault where
  | unexpected (argument : String)
  | repeated (name : String)
  | needlessValue (name : String)
  | missingValue (name : String)
  | missingInput
deriving DecidableEq, Repr

namespace UsageFault

def message : UsageFault → String
  | unexpected argument => "unexpected argument '" ++ argument ++ "'"
  | repeated name => "'" ++ name ++ "' is given more than once"
  | needlessValue name => "'" ++ name ++ "' takes no value"
  | missingValue name => "'" ++ name ++ "' needs a value"
  | missingInput => "the path of a document is needed"

end UsageFault

/-- What an option name stands for. -/
inductive OptionName where
  | help
  | compact
  | diagnostics
  | noHoist
  | output
  | config
deriving DecidableEq, Repr

namespace OptionName

def ofLong? (name : String) : Option OptionName :=
  match name with
  | "help" => some help
  | "compact" => some compact
  | "diagnostics" => some diagnostics
  | "no-hoist" => some noHoist
  | "output" => some output
  | "config" => some config
  | _ => none

def ofShort? : Char → Option OptionName
  | 'h' => some help
  | 'o' => some output
  | 'c' => some config
  | _ => none

/-- Whether a value belongs to the option. -/
def takesValue : OptionName → Bool
  | output | config => true
  | _ => false

def text : OptionName → String
  | help => "--help"
  | compact => "--compact"
  | diagnostics => "--diagnostics"
  | noHoist => "--no-hoist"
  | output => "--output"
  | config => "--config"

end OptionName

/-- An argument by its form. -/
inductive Form where
  /-- The mark after which everything is taken as it stands. -/
  | mark
  /-- An option, perhaps with a value attached to it. -/
  | named (name : OptionName) (attached : Option String)
  | unknown
  | plain
deriving DecidableEq, Repr

/-- The form of an argument.  A single `-` is no option. -/
def formOf (arg : String) : Form :=
  match arg.toList with
  | ['-', '-'] => .mark
  | '-' :: '-' :: cs =>
    let attached := match cs.dropWhile (· != '=') with
      | '=' :: value => some (String.ofList value)
      | _ => none
    match OptionName.ofLong? (String.ofList (cs.takeWhile (· != '='))) with
    | some name => .named name attached
    | none => .unknown
  | '-' :: c :: cs =>
    let attached := match cs with
      | [] => none
      | '=' :: value => some (String.ofList value)
      | value => some (String.ofList value)
    match OptionName.ofShort? c with
    | some .help => .named .help none
    | some name => .named name attached
    | none => .unknown
  | _ => .plain

/-- The arguments read so far. -/
structure Progress where
  input : Option String := none
  output : Option String := none
  config : Option String := none
  compact : Bool := false
  diagnostics : Bool := false
  noHoist : Bool := false
deriving DecidableEq, Repr

namespace Progress

/-- Takes an argument that is no option. -/
def takeInput (p : Progress) (arg : String) : Except UsageFault Progress :=
  if p.input.isSome then .error (.unexpected arg)
  else if arg.isEmpty then .error (.missingValue "input")
  else .ok { p with input := some arg }

def takeInputs (p : Progress) : List String → Except UsageFault Progress
  | [] => .ok p
  | arg :: args => do (← p.takeInput arg).takeInputs args

/-- Takes an option without a value; a request for help is not among them. -/
def takeFlag (p : Progress) (name : OptionName) : Except UsageFault Progress :=
  match name with
  | .compact => if p.compact then .error (.repeated name.text) else .ok { p with compact := true }
  | .diagnostics =>
    if p.diagnostics then .error (.repeated name.text) else .ok { p with diagnostics := true }
  | .noHoist => if p.noHoist then .error (.repeated name.text) else .ok { p with noHoist := true }
  | _ => .ok p

/-- Takes an option with its value. -/
def takeValue (p : Progress) (name : OptionName) (value : String) : Except UsageFault Progress :=
  if value.isEmpty then .error (.missingValue name.text)
  else
    match name with
    | .output =>
      if p.output.isSome then .error (.repeated name.text) else .ok { p with output := some value }
    | .config =>
      if p.config.isSome then .error (.repeated name.text) else .ok { p with config := some value }
    | _ => .error (.needlessValue name.text)

/-- The request when all arguments are read. -/
def finish (p : Progress) : Except UsageFault Request :=
  match p.input with
  | some input =>
    .ok (.compile ⟨input, p.output, p.config, p.compact, p.diagnostics, p.noHoist⟩)
  | none => .error .missingInput

/-- Reads arguments from left to right. -/
def read (p : Progress) : List String → Except UsageFault Request
  | [] => p.finish
  | arg :: args =>
    match formOf arg with
    | .mark => do (← p.takeInputs args).finish
    | .unknown => .error (.unexpected arg)
    | .plain => do (← p.takeInput arg).read args
    | .named .help none => .ok .help
    | .named name (some value) => do (← p.takeValue name value).read args
    | .named name none =>
      if name.takesValue then
        match args with
        | value :: args =>
          if formOf value = .plain then do (← p.takeValue name value).read args
          else .error (.missingValue name.text)
        | [] => .error (.missingValue name.text)
      else do (← p.takeFlag name).read args

end Progress

/-- The request that arguments make. -/
def Request.ofArguments (args : List String) : Except UsageFault Request := Progress.read {} args

/-- How the program is used. -/
def usage : String :=
  "Compile a mapping document into mapping expressions\n\n" ++
  "Usage: mapping-graph [OPTIONS] <INPUT>\n\n" ++
  "Arguments:\n" ++
  "  <INPUT>  Mapping document (JSON)\n\n" ++
  "Options:\n" ++
  "  -o, --output <OUTPUT>  Output file (standard output if absent)\n" ++
  "  -c, --config <CONFIG>  Settings file, laid over the others\n" ++
  "      --compact          Write compact JSON\n" ++
  "      --diagnostics      Include diagnostics and nodes that were not built\n" ++
  "      --no-hoist         Do not share values\n" ++
  "  -h, --help             Print help\n"

end MappingGraph.CommandLine
