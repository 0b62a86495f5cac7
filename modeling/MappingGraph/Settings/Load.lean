import MappingGraph.Settings.Layers

/-!
# Loading and saving settings

Settings are loaded from layers, of which later ones win: the files in the working directory, the
file of the user, a file that is asked for, and the environment.  Only the last file has to exist.
-/

set_option autoImplicit false

namespace MappingGraph

/-- Where a program runs: its files, the variables of its environment, and where the settings of the
user are kept, if anywhere. -/
structure Surroundings (m : Type → Type) where
  files : FileAccess m
  environment : List (String × String) := []
  userFile : Option String := none

/-- Why settings cannot be saved. -/
inductive SaveFault where
  /-- A number is too large for a settings file. -/
  | tooLarge
  | file (fault : FileFault)
deriving DecidableEq, Repr

namespace Settings

/-- The files in the working directory, those that win last. -/
def locations : List String := ["mapper.toml", ".mapper.toml", "config/mapper.toml"]

variable {m : Type → Type} [Monad m]

/-- Lays files over a table, one after the other. -/
def layFiles (files : FileAccess m) :
    List (String × Bool) → SettingsTable → m (Except SettingsFault SettingsTable)
  | [], table => return .ok table
  | (path, required) :: rest, table => do
    match ← SettingsTable.ofFile files path required with
    | .error fault => return .error fault
    | .ok layer => layFiles files rest (table.overlaid layer)

/-- The files to look at, and which of them must exist. -/
def sources (userFile path : Option String) : List (String × Bool) :=
  locations.map (·, false) ++ userFile.toList.map (·, false) ++ path.toList.map (·, true)

/-- Loads the settings, with those of a file laid over the others if a path is given. -/
def load (around : Surroundings m) (path : Option String) : m (Except SettingsFault Settings) := do
  let userFile ← match around.userFile with
    | some file => do
      if (← around.files.kind file) = .absent then pure none else pure (some file)
    | none => pure none
  match ← layFiles around.files (sources userFile path) [] with
  | .error fault => return .error fault
  | .ok table =>
    return (table.overlaid (SettingsTable.ofEnvironment around.environment)).settings

/-- Saves the settings as a file. -/
def save (files : FileAccess m) (path : String) (s : Settings) : m (Except SaveFault Unit) := do
  match s.fileText? with
  | none => return .error .tooLarge
  | some text =>
    match ← files.write path (Text.toBytes text) with
    | .ok () => return .ok ()
    | .error fault => return .error (.file fault)

end Settings

end MappingGraph
