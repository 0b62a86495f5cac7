import MappingGraph.Text.Utf8

/-!
# Access to files

What a program does with files goes through a `FileAccess`, a record of the few operations it needs.
The operations are those of some monad, so that the same program runs on the real file system and on
the store of `Files/Store.lean`.
-/

set_option autoImplicit false

namespace MappingGraph

/-- Why a file cannot be read or written. -/
inductive FileFault where
  | notFound
  | notDirectory
  | isDirectory
  | invalidText
  /-- Anything else, in the words of the system. -/
  | other (message : String)
deriving DecidableEq, Repr, Inhabited

namespace FileFault

def message : FileFault → String
  | notFound => "No such file or directory (os error 2)"
  | notDirectory => "Not a directory (os error 20)"
  | isDirectory => "Is a directory (os error 21)"
  | invalidText => "stream did not contain valid UTF-8"
  | other message => message

end FileFault

/-- What stands at a path. -/
inductive PathKind where
  | absent
  | file
  | directory
deriving DecidableEq, Repr, Inhabited

/-- The operations on files. -/
structure FileAccess (m : Type → Type) where
  /-- What stands at a path. -/
  kind : String → m PathKind
  read : String → m (Except FileFault (List UInt8))
  write : String → List UInt8 → m (Except FileFault Unit)

namespace FileAccess

variable {m : Type → Type} [Monad m]

/-- Reads a file that must be text. -/
def readText (files : FileAccess m) (path : String) : m (Except FileFault String) := do
  match ← files.read path with
  | .error fault => return .error fault
  | .ok bytes =>
    match Text.ofBytes? bytes with
    | some s => return .ok s
    | none => return .error .invalidText

end FileAccess

end MappingGraph
