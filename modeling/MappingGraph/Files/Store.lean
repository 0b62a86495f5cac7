import MappingGraph.Files.Access

/-!
# A store of files

A directory tree as a value: files with their bytes, and directories that may be empty.  A path is
relative to the top of the tree; it is walked from left to right, so every component but the last
must be a directory, `.` stays, and `..` goes back.

The tree lies in a directory, as does that one.  So a path that only leads upwards names a
directory, but nothing else outside of the tree can be reached.
-/

set_option autoImplicit false

namespace MappingGraph

/-- What an entry of a store is. -/
inductive StoreEntry where
  | file (bytes : List UInt8)
  | directory
deriving DecidableEq, Repr, Inhabited

/-- Files and directories by the components of their paths. -/
structure FileStore where
  entries : List (List String × StoreEntry)
deriving Repr, Inhabited

namespace FileStore

/-- A place that a path may lead to. -/
inductive Place where
  | inside (components : List String)
  /-- A directory that the tree lies in. -/
  | outside
deriving DecidableEq, Repr, Inhabited

/-- The steps of a path, from left to right. -/
def steps (path : String) : List String := (path.splitOn "/").filter (· ≠ "")

/-- The components of a path without upward steps. -/
def components (path : String) : List String := (steps path).filter (· ≠ ".")

/-- Whether a path ends in a slash, so that it can only mean a directory. -/
def meansDirectory (path : String) : Bool := path.endsWith "/"

/-- What stands at the components: an entry, or a directory that some entry lies in. -/
def find? (s : FileStore) (cs : List String) : Option StoreEntry :=
  match s.entries.find? (·.1 = cs) with
  | some (_, entry) => some entry
  | none =>
    if cs.isEmpty || s.entries.any fun e => cs.isPrefixOf e.1 then some .directory else none

/-- Whether components lead nowhere but upwards. -/
def onlyUp (cs : List String) : Bool := cs.all fun c => c = "." || c = ".."

/-- Walks on from a directory to the place that the components lead to.  The last component need
not be there. -/
def walk (s : FileStore) (here : List String) : List String → Except FileFault Place
  | [] => .ok (.inside here)
  | "." :: cs => s.walk here cs
  | ".." :: cs =>
    if !here.isEmpty then s.walk here.dropLast cs
    else if onlyUp cs then .ok .outside
    else .error .notFound
  | [c] => .ok (.inside (here ++ [c]))
  | c :: cs =>
    match s.find? (here ++ [c]) with
    | some .directory => s.walk (here ++ [c]) cs
    | some (.file _) => .error .notDirectory
    | none => .error .notFound

/-- The place that a path leads to. -/
def place (s : FileStore) (path : String) : Except FileFault Place :=
  let cs := steps path
  if path.startsWith "/" then (if onlyUp cs then .ok .outside else .error .notFound)
  else if path.isEmpty then .error .notFound
  else s.walk [] cs

/-- What stands at a path. -/
def lookup (s : FileStore) (path : String) : Except FileFault StoreEntry := do
  match ← s.place path with
  | .outside => return .directory
  | .inside cs =>
    match s.find? cs with
    | none => .error .notFound
    | some .directory => return .directory
    | some (.file bytes) =>
      if meansDirectory path then .error .notDirectory else return .file bytes

/-- The bytes of the file at a path. -/
def read (s : FileStore) (path : String) : Except FileFault (List UInt8) := do
  match ← s.lookup path with
  | .file bytes => return bytes
  | .directory => .error .isDirectory

/-- The store with a file added at the components, or replaced. -/
def put (s : FileStore) (cs : List String) (bytes : List UInt8) : FileStore :=
  ⟨(cs, .file bytes) :: s.entries.filter (·.1 ≠ cs)⟩

/-- The store after a file was written; its directory must be there. -/
def write (s : FileStore) (path : String) (bytes : List UInt8) : Except FileFault FileStore := do
  match ← s.place path with
  | .outside => .error .isDirectory
  | .inside cs =>
    match s.find? cs with
    | some .directory => .error .isDirectory
    | some (.file _) =>
      if meansDirectory path then .error .notDirectory else return s.put cs bytes
    | none => if meansDirectory path then .error .isDirectory else return s.put cs bytes

/-- The operations on files, on a store. -/
def access : FileAccess (StateM FileStore) where
  kind path := do
    match (← get).lookup path with
    | .ok (.file _) => return .file
    | .ok .directory => return .directory
    | .error _ => return .absent
  read path := do return (← get).read path
  write path bytes := do
    match (← get).write path bytes with
    | .ok s =>
      set s
      return .ok ()
    | .error fault => return .error fault

end FileStore

end MappingGraph
