import MappingGraph.CommandLine.Run

/-!
# The program

Gives the command line the real file system, the environment and the standard streams.
-/

set_option autoImplicit false

namespace MappingGraph.Main

/-- What kept the system from reading or writing a file. -/
def faultOf : IO.Error → FileFault
  | .noFileOrDirectory _ _ _ => .notFound
  | .inappropriateType _ 20 _ => .notDirectory
  | .inappropriateType _ 21 _ => .isDirectory
  | e => .other (toString e)

/-- Performs an action on a file. -/
def attempt {α : Type} (action : IO α) : IO (Except FileFault α) := do
  match ← action.toBaseIO with
  | .ok a => return .ok a
  | .error e => return .error (faultOf e)

/-- The files of the system.  What stands at a path is found out by reading it. -/
def files : FileAccess IO where
  kind path := do
    match ← attempt (IO.FS.readBinFile path) with
    | .error .notFound | .error .notDirectory => return .absent
    | .error .isDirectory => return .directory
    | _ => return .file
  read path := do
    return (← attempt (IO.FS.readBinFile path)).map fun bytes => bytes.data.toList
  write path bytes := attempt (IO.FS.writeBinFile path ⟨bytes.toArray⟩)

/-- The variables of the environment. -/
def environment : IO (List (String × String)) := do
  match ← files.readText "/proc/self/environ" with
  | .error _ => return []
  | .ok text =>
    return (text.splitOn "\x00").filterMap fun entry =>
      match entry.splitOn "=" with
      | name :: value :: more => some (name, String.intercalate "=" (value :: more))
      | _ => none

/-- Where the settings of the user are kept. -/
def userFile : IO (Option String) := do
  match ← IO.getEnv "XDG_CONFIG_HOME" with
  | some directory =>
    if directory.startsWith "/" then return some (directory ++ "/mapper/mapper.toml") else fromHome
  | none => fromHome
where
  fromHome : IO (Option String) := do
    return (← IO.getEnv "HOME").map (· ++ "/.config/mapper/mapper.toml")

end MappingGraph.Main

/-- Runs the command line. -/
def main (args : List String) : IO UInt32 := do
  let around : MappingGraph.Surroundings IO :=
    { files := MappingGraph.Main.files
      environment := ← MappingGraph.Main.environment
      userFile := ← MappingGraph.Main.userFile }
  let outcome ← MappingGraph.CommandLine.run around args
  IO.eprint outcome.stderr
  IO.print outcome.stdout
  return UInt32.ofNat outcome.code
