import MappingGraph.Json.Printer
import MappingGraph.Text.Blank
import MappingGraph.Text.Search

/-!
# Templates

A template is a text with parameters, such as `{host}/api/{id}`.  A parameter is an identifier in
braces; braces around anything else are ordinary text.

* `split` cuts a template into its texts and parameters.
* `params` lists the parameters, each once.
* `fault?` tells why a template should not be used.
* `substitute` puts values in the place of parameters, one name after the other.  A value that
  itself contains a parameter is open to the names that come later.
-/

set_option autoImplicit false

namespace MappingGraph.Template

/-- A piece of a template. -/
inductive Part where
  | text (s : String)
  | param (name : String)
deriving DecidableEq, Repr

def isNameStart (c : Char) : Bool := c.isAlpha || c = '_'

def isNameChar (c : Char) : Bool := c.isAlphanum || c = '_'

/-- The identifier in braces at the start of a list, and what follows it. -/
def leadingParam? : List Char → Option (List Char × List Char)
  | c :: d :: cs =>
    if c = '\x7b' && isNameStart d then
      match cs.dropWhile isNameChar with
      | e :: rest => if e = '\x7d' then some (d :: cs.takeWhile isNameChar, rest) else none
      | [] => none
    else none
  | _ => none

/-- A text that was gathered in reverse, unless it is empty. -/
def textPart (gathered : List Char) : List Part :=
  if gathered.isEmpty then [] else [.text (String.ofList gathered.reverse)]

/-- The parts of a list of characters.  `skip` characters still belong to the parameter before, and
`gathered` holds the text since then in reverse. -/
def splitFrom : (skip : Nat) → (gathered : List Char) → List Char → List Part
  | _, gathered, [] => textPart gathered
  | skip + 1, gathered, _ :: cs => splitFrom skip gathered cs
  | 0, gathered, c :: cs =>
    match leadingParam? (c :: cs) with
    | some (name, _) =>
      textPart gathered ++ .param (String.ofList name) :: splitFrom (name.length + 1) [] cs
    | none => splitFrom 0 (c :: gathered) cs

/-- The texts and parameters of a template in their order. -/
def split (template : String) : List Part := splitFrom 0 [] template.toList

/-- The name of a parameter. -/
def Part.name? : Part → Option String
  | .param name => some name
  | .text _ => none

/-- The parameters of a template in the order of their first appearance. -/
def params (template : String) : List String :=
  ((split template).filterMap Part.name?).eraseDups

/-! ## Validity -/

/-- Why a template should not be used. -/
inductive Fault where
  | empty
  | unbalanced (opening closing : Nat)
  | badStart (param : String)
  | emptyParam
deriving DecidableEq, Repr

namespace Fault

def message : Fault → String
  | empty => "template is empty"
  | unbalanced opening closing =>
    "unbalanced braces: " ++ Text.natText opening ++ " '\x7b' vs " ++ Text.natText closing ++
      " '\x7d'"
  | badStart param => "parameter '\x7b" ++ param ++ "\x7d' must start with a letter or underscore"
  | emptyParam => "empty parameter '\x7b\x7d'"

/-- The fault as it is told where nothing else says that it is about a template. -/
def report (fault : Fault) : String := "Invalid template: " ++ fault.message

end Fault

/-- What stands in innermost pairs of braces, from left to right.  `inside` holds in reverse what
follows the latest opening brace. -/
def braced : (inside : Option (List Char)) → List Char → List (List Char)
  | _, [] => []
  | inside, c :: cs =>
    if c = '\x7b' then braced (some []) cs
    else if c = '\x7d' then
      match inside with
      | some gathered => gathered.reverse :: braced none cs
      | none => braced none cs
    else braced (inside.map (c :: ·)) cs

/-- Why what stands in braces is no parameter. -/
def bracedFault? : List Char → Option Fault
  | [] => some .emptyParam
  | c :: cs => if isNameStart c then none else some (.badStart (String.ofList (c :: cs)))

/-- Why a template should not be used, if so. -/
def fault? (template : String) : Option Fault :=
  let cs := template.toList
  if (Text.trimChars cs).isEmpty then some .empty
  else
    let opening := cs.count '\x7b'
    let closing := cs.count '\x7d'
    if opening ≠ closing then some (.unbalanced opening closing)
    else (braced none cs).findSome? bracedFault?

/-! ## Substitution -/

/-- How a value stands in a text: a string as it is, anything else as JSON. -/
def valueText : Json → String
  | .string s => s
  | v => v.compact

/-- The template with the values in the place of their names, one name after the other. -/
def substitute (template : String) (values : Members) : String :=
  values.foldl
    (fun text (name, value) => Text.replaceAll ("\x7b" ++ name ++ "\x7d") (valueText value) text)
    template

end MappingGraph.Template
