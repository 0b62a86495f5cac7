import MappingGraph.Document.Codec
import MappingGraph.Files.Access

/-!
# Loading documents

A document is loaded from a file of JSON text.  Three things can go wrong: there is nothing at the
path, the file cannot be read as text, or the text is no document.
-/

set_option autoImplicit false

namespace MappingGraph

/-- Why a document cannot be loaded. -/
inductive LoadFault where
  | notFound (path : String)
  | unreadable (fault : FileFault)
  | invalid (path : String) (fault : ReadFault)
deriving DecidableEq, Repr

namespace Document

/-- The words for a text that is no document. -/
def faultMessage (reason : String) : String := "JSON error: " ++ reason

/-- Loads the document at a path. -/
def load {m : Type → Type} [Monad m] (files : FileAccess m) (path : String) :
    m (Except LoadFault Document) := do
  if (← files.kind path) = .absent then return .error (.notFound path)
  match ← files.readText path with
  | .error fault => return .error (.unreadable fault)
  | .ok text =>
    match ofText? text with
    | .ok d => return .ok d
    | .error fault => return .error (.invalid path fault)

end Document

namespace LoadFault

/-- The words for a document that cannot be read for the given reason. -/
def invalidMessage (path reason : String) : String :=
  "Invalid mapping document: " ++ path ++ ": " ++ Document.faultMessage reason

/-- The fault and what caused it, from the outside in. -/
def causes : LoadFault → List String
  | notFound path => ["Document not found: " ++ path]
  | unreadable fault => ["IO error: " ++ fault.message, fault.message]
  | invalid path fault => [invalidMessage path fault.message]

end LoadFault

end MappingGraph
