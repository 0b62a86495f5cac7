import MappingGraph.Ini.Reader
import MappingGraph.Json.Decoder
import MappingGraph.Json5.Reader
import MappingGraph.Ron.Reader
import MappingGraph.Toml.Reader
import MappingGraph.Yaml.Reader

/-!
# Formats of settings files

A settings file may be written in any of several formats; in each of them it must be a table as a
whole.  The ending of the name of a file tells its format.
-/

set_option autoImplicit false

namespace MappingGraph

/-- The keys and values of a layer of settings, or of all layers laid over each other. -/
abbrev SettingsTable := List (String × Setting)

/-- The formats of settings files. -/
inductive SettingsFormat where
  | toml
  | json
  | yaml
  | ini
  | ron
  | json5
deriving DecidableEq, Repr

namespace SettingsFormat

/-- The endings of file names and the formats that they tell. -/
def endings : List (String × SettingsFormat) :=
  [("toml", toml), ("json", json), ("yaml", yaml), ("yml", yaml), ("ini", ini), ("ron", ron),
    ("json5", json5)]

/-- The part of a path after its last slash. -/
def fileName (path : String) : List Char := (path.toList.reverse.takeWhile (· != '/')).reverse

/-- The ending of a file name, without its point.  A point at the start of the name does not
count. -/
def endingOf (path : String) : String :=
  match (fileName path).reverse.span (· != '.') with
  | (_, []) | (_, [_]) => ""
  | (ending, _) => String.ofList ending.reverse

/-- The format that the ending of a path tells. -/
def ofPath? (path : String) : Option SettingsFormat := endings.lookup (endingOf path)

/-! ## JSON -/

mutual

/-- A JSON value as a setting.  Only integers of 64 bits with a sign stay integers. -/
def settingOfJson : Json → Setting
  | .null => .none
  | .bool b => .bool b
  | .number (.integer i) =>
    if i ≤ Number.maxSigned then .integer i else .real (.ofDecimal ⟨false, i.toNat, 0⟩)
  | .number (.fractional x) => .real (.finite x)
  | .string s => .text s
  | .array xs => .list (settingsOfItems xs)
  | .object ms => .table (settingsOfMembers ms)

def settingsOfItems : List Json → List Setting
  | [] => []
  | x :: xs => settingOfJson x :: settingsOfItems xs

def settingsOfMembers : List (String × Json) → List (String × Setting)
  | [] => []
  | (key, x) :: ms => (key, settingOfJson x) :: settingsOfMembers ms

end

/-- The entries that a JSON text gives. -/
def readJson? (s : String) : Option SettingsTable :=
  match Json.ofText? s with
  | .ok (.object ms) => some (settingsOfMembers ms)
  | _ => none

/-- The table that a text in the format gives, if it is well formed. -/
def read? : SettingsFormat → String → Option SettingsTable
  | toml, s => Toml.ofText? s
  | json, s => readJson? s
  | yaml, s => Yaml.ofText? s
  | ini, s => Ini.ofText? s
  | ron, s => Ron.ofText? s
  | json5, s => Json5.ofText? s

end SettingsFormat

end MappingGraph
