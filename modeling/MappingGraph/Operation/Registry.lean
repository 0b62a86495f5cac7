import MappingGraph.Operation.Kind

/-!
# Registries of operations

A registry says which kinds a compilation may use, whether each is pure, and what it is called in
front of people.  It is passed along explicitly, so that documents can be compiled against several
sets of operations side by side.
-/

set_option autoImplicit false

namespace MappingGraph

/-- What is known about a kind. -/
structure OperationInfo where
  /-- One evaluation may stand for several. -/
  isPure : Bool
  displayName : String
deriving DecidableEq, Repr, Inhabited

/-- The kinds that may be used, each once, the latest first. -/
structure Registry where
  entries : List (Kind × OperationInfo)
deriving Repr, Inhabited

namespace Registry

def empty : Registry := ⟨[]⟩

def find? (r : Registry) (kind : Kind) : Option OperationInfo :=
  (r.entries.find? (·.1 = kind)).map (·.2)

def contains (r : Registry) (kind : Kind) : Bool := (r.find? kind).isSome

/-- The registry without a kind. -/
def erase (r : Registry) (kind : Kind) : Registry := ⟨r.entries.filter (·.1 ≠ kind)⟩

/-- The registry with a kind added, or its entry replaced. -/
def insert (r : Registry) (kind : Kind) (info : OperationInfo) : Registry :=
  ⟨(kind, info) :: (r.erase kind).entries⟩

def size (r : Registry) : Nat := r.entries.length

/-- Whether a kind is pure; one that is not registered counts as impure. -/
def isPure (r : Registry) (kind : Kind) : Bool :=
  match r.find? kind with
  | some info => info.isPure
  | none => false

/-- The words of a name in capitals: `lessThanOrEqual` becomes `Less Than Or Equal`. -/
def displayNameOf (name : String) : String :=
  match name.toList with
  | [] => ""
  | c :: cs =>
    String.ofList (c.toUpper :: cs.flatMap fun d => if d.isUpper then [' ', d] else [d])

/-- All known kinds, pure where they are so by default. -/
def standard : Registry :=
  Kind.all.foldl (fun r k => r.insert k ⟨k.isPureByDefault, displayNameOf k.name⟩) empty

end Registry

end MappingGraph
