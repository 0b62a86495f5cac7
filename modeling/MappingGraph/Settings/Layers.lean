import MappingGraph.Files.Access
import MappingGraph.Settings.Basic
import MappingGraph.Settings.Format
import MappingGraph.Settings.Path

/-!
# Layers of settings

Settings come from files and from variables of the environment.  Each is a layer; a layer says only
what it wants to change, and is laid over those before it.  Files are named without regard to their
format, which their ending tells: a path that is no file itself stands for the file with an ending
added.

The keys at the top of a layer may be paths, such as `output.format` or `output[0]`; below the top a
key is taken as it is.
-/

set_option autoImplicit false

namespace MappingGraph

/-- Why settings cannot be had. -/
inductive SettingsFault where
  /-- There is no such file, or none in a format that is known. -/
  | missing (path : String)
  | malformed (path : String)
  /-- A value is not what its key stands for. -/
  | unfit (key : String)
deriving DecidableEq, Repr

namespace SettingsFault

def message : SettingsFault → String
  | missing path => "no settings file \"" ++ path ++ "\""
  | malformed path => "malformed settings file " ++ path
  | unfit key => "unfit value of \"" ++ key ++ "\""

end SettingsFault

namespace SettingsTable

/-- Lays a value over what the table has at the place that a key names. -/
def lay (table : SettingsTable) (key : String) (value : Setting) : SettingsTable :=
  let path := SettingPath.ofText key
  (Setting.laidAt value (.key path.first :: path.rest) (.table table)).entriesOrNone

/-- Lays a layer over what there is. -/
def overlaid (below layer : SettingsTable) : SettingsTable :=
  layer.foldl (fun table entry => table.lay entry.1 entry.2) below

/-! ## Layers from files -/

variable {m : Type → Type} [Monad m]

/-- The path of a file without slashes and points at its end, which say nothing about its name; none
if the path names no file. -/
def plainPath? (path : String) : Option String :=
  match (path.splitOn "/").reverse.dropWhile fun part => part = "" || part = "." with
  | [] => none
  | name :: above =>
    if name = ".." then none else some (String.intercalate "/" (name :: above).reverse)

/-- The first of the paths, each the given one with an ending added, at which there is a file. -/
def findWithEnding (files : FileAccess m) (path : String) :
    List (String × SettingsFormat) → m (Option (String × SettingsFormat))
  | [] => return none
  | (ending, format) :: endings => do
    let candidate := path ++ "." ++ ending
    if (← files.kind candidate) = .file then return some (candidate, format)
    else findWithEnding files path endings

/-- The settings file that a path stands for. -/
def findFile (files : FileAccess m) (path : String) : m (Option (String × SettingsFormat)) := do
  if (← files.kind path) = .file then
    return (SettingsFormat.ofPath? path).map fun format => (path, format)
  else
    match plainPath? path with
    | some path => findWithEnding files path SettingsFormat.endings
    | none => return none

/-- The layer of the file at a path.  A file that is not required may be missing or unreadable, but
if its text can be read it must be well formed. -/
def ofFile (files : FileAccess m) (path : String) (required : Bool) :
    m (Except SettingsFault SettingsTable) := do
  match ← findFile files path with
  | none => return if required then .error (.missing path) else .ok []
  | some (found, format) =>
    match ← files.readText found with
    | .error _ => return if required then .error (.missing path) else .ok []
    | .ok text =>
      match format.read? text with
      | some table => return .ok table
      | none => return .error (.malformed found)

/-! ## The layer of the environment -/

/-- How the names of the variables begin. -/
def variableStart : String := "mapper__"

/-- The value that the text of a variable stands for. -/
def settingOfText (s : String) : Setting :=
  let word := Setting.lowerWord s
  if word = "true" then .bool true
  else if word = "false" then .bool false
  else
    match Text.integerWithin? Number.minInteger Number.maxSigned s with
    | some i => .integer i
    | none =>
      match Real.ofText? s with
      | some x => .real x
      | none => .text s

/-- The layer that variables give: what follows `mapper__` in a name, the case of letters ignored,
is a path with two underscores between its keys. -/
def ofEnvironment (environment : List (String × String)) : SettingsTable :=
  environment.filterMap fun (name, value) =>
    let lower := Setting.lowerWord name
    if variableStart.toList.isPrefixOf lower.toList then
      let rest := String.ofList (lower.toList.drop variableStart.length)
      some (Text.replaceAll "__" "." rest, settingOfText value)
    else none

/-! ## From a table to settings -/

/-- Reads the value of a key, or takes the default if there is none. -/
def valueOf {α : Type} (key : String) (read : Setting → Option α) (absent : α) :
    Option Setting → Except SettingsFault α
  | none => .ok absent
  | some v =>
    match read v with
    | some a => .ok a
    | none => .error (.unfit key)

/-- The values of a section for two keys.  A section may also be a list of the values. -/
def section? (first second : String) : Setting → Option (Option Setting × Option Setting)
  | .table es => some (Setting.find? first es, Setting.find? second es)
  | .list xs => some (xs[0]?, xs[1]?)
  | _ => none

/-- The format that a setting names, whatever the case of its letters. -/
def toFormat? (v : Setting) : Option OutputFormat := do
  let name ← v.toName?
  OutputFormat.all.find? (·.name = Setting.lowerWord name)

/-- The options in a section. -/
def options (part : Option Setting) : Except SettingsFault Options := do
  let (hoist, cost) ← valueOf "compiler" (section? "hoist_shared" "min_hoist_cost")
    (none, none) part
  let byDefault : Options := {}
  return ⟨← valueOf "hoist_shared" Setting.toBool? byDefault.hoistShared hoist,
    ← valueOf "min_hoist_cost" Setting.toNatural? byDefault.minHoistCost cost⟩

/-- The output settings in a section. -/
def output (part : Option Setting) : Except SettingsFault OutputSettings := do
  let (format, diagnostics) ← valueOf "output" (section? "format" "include_diagnostics")
    (none, none) part
  let byDefault : OutputSettings := {}
  return ⟨← valueOf "format" toFormat? byDefault.format format,
    ← valueOf "include_diagnostics" Setting.toBool? byDefault.includeDiagnostics diagnostics⟩

/-- The settings that a table gives. -/
def settings (table : SettingsTable) : Except SettingsFault Settings := do
  return ⟨← options (Setting.find? "compiler" table), ← output (Setting.find? "output" table)⟩

end SettingsTable

end MappingGraph
