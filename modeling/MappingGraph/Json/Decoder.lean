import MappingGraph.Json.Mismatch
import MappingGraph.Json.Reader

/-!
# Decoders

A decoder reads a draft as a value of some type, or answers with the first fault that matters to
it.  This file has the decoders of single values, lists, optional values and choices of names;
`Json/Record.lean` puts them together to those of structures.

The standing of a draft changes small things.  From a text, a choice of names that is neither a
string nor an object is a fault of syntax, elsewhere one of shape; among gathered content the value
beside a chosen name may be an empty object instead of `null`.
-/

set_option autoImplicit false

namespace MappingGraph

/-- Reads a draft that stands somewhere as a value of the type. -/
abbrev Decoder (α : Type) := Standing → Draft → Except ReadFault α

namespace Decoder

/-- A fault of syntax as a fault of reading. -/
def syntactic {α : Type} : Except SyntaxFault α → Except ReadFault α
  | .ok a => .ok a
  | .error fault => .error (.syntaxFault fault)

/-- Refuses a draft where something else is expected. -/
def refuse {α : Type} (expected : String) : Draft → Except ReadFault α
  | .null => .error (.mismatch (.wrongType .null expected))
  | .bool b => .error (.mismatch (.wrongType (.bool b) expected))
  | .number n => .error (.mismatch (.wrongType (.number n) expected))
  | .string s => .error (.mismatch (.wrongType (.string s) expected))
  | .array _ _ => .error (.mismatch (.wrongType .sequence expected))
  | .object _ _ => .error (.mismatch (.wrongType .map expected))
  | .badString flaw | .badToken flaw => .error (.syntaxFault flaw.wanted)
  | .missing fault => .error (.syntaxFault fault)

/-- Any value at all. -/
def json : Decoder Json := fun standing d => syntactic (d.value? standing)

def string : Decoder String
  | _, .string s => .ok s
  | _, d => refuse "a string" d

def bool : Decoder Bool
  | _, .bool b => .ok b
  | _, d => refuse "a boolean" d

/-- A natural number of 64 bits. -/
def natural : Decoder Nat
  | _, .number (.integer i) =>
    if 0 ≤ i then .ok i.toNat
    else .error (.mismatch (.wrongValue (.number (.integer i)) "a natural number"))
  | _, d => refuse "a natural number" d

/-- A value, or `null` for none. -/
def optional {α : Type} (decode : Decoder α) : Decoder (Option α)
  | _, .null => .ok none
  | standing, d => (decode standing d).map some

/-- Reads items one after the other. -/
def items {α : Type} (decode : Decoder α) (standing : Standing) :
    List Draft → Except ReadFault (List α)
  | [] => .ok []
  | x :: xs => do
    let a ← decode standing x
    return a :: (← items decode standing xs)

/-- An array of values. -/
def list {α : Type} (decode : Decoder α) : Decoder (List α)
  | standing, .array xs ending => do
    let inside ← syntactic standing.enter
    let values ← items decode inside xs
    syntactic ending.ofArray
    return values
  | _, d => refuse "a sequence" d

/-- Reads members one after the other. -/
def entries {α : Type} (decode : Decoder α) (standing : Standing) :
    List (DraftKey × Draft) → Except ReadFault (List (String × α))
  | [] => .ok []
  | (key, x) :: ms => do
    let k ← syntactic key.text?
    let a ← decode standing x
    return (k, a) :: (← entries decode standing ms)

/-- An object whose members all hold values of one type. -/
def map {α : Type} (decode : Decoder α) : Decoder (List (String × α))
  | standing, .object ms ending => do
    let inside ← syntactic standing.enter
    let values ← entries decode inside ms
    syntactic ending.ofObject
    return values
  | _, d => refuse "a map" d

/-- The value that a name stands for. -/
def named {α : Type} (choices : List (String × α)) (name : String) : Except ReadFault α :=
  match choices.find? (·.1 = name) with
  | some (_, a) => .ok a
  | none => .error (.mismatch (.unknownVariant name (choices.map (·.1))))

/-- The value beside a chosen name, which must be empty. -/
def nothing : Decoder Unit
  | _, .null => .ok ()
  | .gathered, .object [] _ => .ok ()
  | _, d => refuse "unit" d

/-- The name in an object of a text and nothing beside it.  The key is read as a value would be, so
one that is no string is of the wrong type. -/
def soleKey {α : Type} (choices : List (String × α)) (standing : Standing) (ending : Ending) :
    List (DraftKey × Draft) → Except ReadFault α
  | [] => .error (.syntaxFault (if ending = .cut then .endInValue else .expectedValue))
  | (.notString, found) :: _ => refuse "variant identifier" found
  | (.flawed flaw, _) :: _ => .error (.syntaxFault flaw.wanted)
  | (.text name, x) :: rest => do
    let a ← named choices name
    nothing standing x
    syntactic (if rest.isEmpty then ending.ofSingleton else .error .expectedValue)
    return a

/-- One of several names, as a string or as the only key of an object with nothing beside it.  In a
text only the first character is looked at to tell the two from everything else. -/
def choice {α : Type} (choices : List (String × α)) : Decoder α
  | _, .string s => named choices s
  | .text room, .object ms ending => do
    let inside ← syntactic (Standing.enter (.text room))
    soleKey choices inside ending ms
  | standing, .object [(key, x)] _ => do
    let a ← named choices (← syntactic key.text?)
    nothing standing x
    return a
  | _, .object _ _ => .error (.mismatch (.wrongValue .map "map with a single key"))
  | _, .badString flaw => .error (.syntaxFault flaw.wanted)
  | _, .missing fault => .error (.syntaxFault fault)
  | .text _, _ => .error (.syntaxFault .expectedValue)
  | _, d => refuse "string or map" d

/-- The name of a kind of object.  Among gathered content its position in the list will do. -/
def tag {α : Type} (choices : List (String × α)) : Decoder α
  | _, .string s => named choices s
  | .gathered, .number (.integer i) =>
    if 0 ≤ i then
      match choices[i.toNat]? with
      | some (_, a) => .ok a
      | none => .error (.mismatch (.wrongValue (.number (.integer i))
          ("a position below " ++ Text.natText choices.length)))
    else refuse "the name of a kind" (.number (.integer i))
  | _, d => refuse "the name of a kind" d

/-- Reads a whole text. -/
def ofText? {α : Type} (decode : Decoder α) (text : String) : Except ReadFault α := do
  let (draft, rest) := Draft.ofText text
  let a ← decode (.text Standing.textRoom) draft
  syntactic rest
  return a

/-- Reads a value. -/
def ofJson? {α : Type} (decode : Decoder α) (v : Json) : Except ReadFault α :=
  decode .value (Draft.ofJson v)

end Decoder

/-- The value written in a text. -/
def Json.ofText? (text : String) : Except ReadFault Json :=
  Decoder.ofText? Decoder.json text

end MappingGraph
