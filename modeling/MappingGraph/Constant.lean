import MappingGraph.Expr.Basic
import MappingGraph.Json.Decoder
import MappingGraph.Json.Printer
import MappingGraph.Number.Decimal
import MappingGraph.Text.Blank

/-!
# Constants

The settings of a constant declare a type and give a value, usually as text:

    { "valueType": "integer", "value": "42" }

`Constant.parse?` reads the value as its declared type.  Scalars have their own readings; `array`
and `object` go through JSON.  What cannot be read so is kept as the string literal
`Constant.fallback`.
-/

set_option autoImplicit false

namespace MappingGraph.Constant

/-- Why a constant cannot be read as its declared type. -/
inductive Fault where
  | unknownType (type : String)
  | unparseable (type raw : String)
deriving DecidableEq, Repr

namespace Fault

def message : Fault → String
  | unknownType type => "unknown constant type '" ++ type ++ "'"
  | unparseable type raw => "'" ++ raw ++ "' is not a valid " ++ type

end Fault

/-- The declared type; a string if none is declared. -/
def declaredType (config : Json) : String := (config.getString? "valueType").getD "string"

/-- The given value; null if there is none. -/
def given (config : Json) : Json := (config.get? "value").getD .null

/-- A value as text: a string as it is, nothing for null, anything else as JSON. -/
def rawText : Json → String
  | .null => ""
  | .string s => s
  | v => v.compact

/-- The boolean that a value is or, whatever its case, spells. -/
def boolean? : Json → Option Bool
  | .bool b => some b
  | v =>
    let word := (Text.trimChars (rawText v).toList).map Char.toLower
    if word = "true".toList then some true
    else if word = "false".toList then some false
    else none

/-- The integer that a value is or spells, if it fits 64 bits with a sign. -/
def integer? : Json → Option Int
  | .number n => n.toSigned?
  | v => Text.integerWithin? Number.minInteger Number.maxSigned (Text.trim (rawText v))

/-- The number that a value is or spells. -/
def number? : Json → Option Number
  | .number n => some n
  | v => (Binary64.ofText? (Text.trim (rawText v))).map .fractional

/-- The array or object that a value is, or the value written in it as JSON text. -/
def structured? : Json → Option Json
  | .string s => (Json.ofText? s).toOption
  | .array xs => some (.array xs)
  | .object ms => some (.object ms)
  | _ => none

/-- An array of literals. -/
def arrayOf {ρ : Type} (xs : List Json) : Expr ρ := .array (xs.map Expr.ofJson)

/-- An object of literals. -/
def objectOf {ρ : Type} (ms : Members) : Expr ρ := .object (ms.map fun (k, v) => (k, Expr.ofJson v))

/-- The constant that the settings describe.  An object may also be given as an array. -/
def parse? {ρ : Type} (config : Json) : Except Fault (Expr ρ) :=
  let type := declaredType config
  let value := given config
  let orFault : Option (Expr ρ) → Except Fault (Expr ρ)
    | some e => .ok e
    | none => .error (.unparseable type (rawText value))
  if type = "string" then .ok (.string (rawText value))
  else if type = "null" then .ok .null
  else if type = "boolean" then orFault ((boolean? value).map fun b => .ofJson (.bool b))
  else if type = "integer" then
    orFault ((integer? value).map fun i => .literal (.number (.integer i)) .integer)
  else if type = "number" then
    orFault ((number? value).map fun n => .literal (.number n) .number)
  else if type = "array" then
    orFault <| match structured? value with
      | some (.array xs) => some (arrayOf xs)
      | _ => none
  else if type = "object" then
    orFault <| match structured? value with
      | some (.array xs) => some (arrayOf xs)
      | some (.object ms) => some (objectOf ms)
      | _ => none
  else .error (.unknownType type)

/-- The string literal that a constant is kept as when it cannot be read. -/
def fallback {ρ : Type} (config : Json) : Expr ρ := .string (rawText (given config))

end MappingGraph.Constant
