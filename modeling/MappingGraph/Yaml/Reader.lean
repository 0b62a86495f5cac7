import MappingGraph.Yaml.Node

/-!
# Settings from YAML

`Yaml.ofText?` answers with the entries of the mapping that a YAML text is.  Strings and integers
can be keys; of several entries with one key the last counts.
-/

set_option autoImplicit false

namespace MappingGraph.Yaml

namespace Node

/-- The name that a key stands for. -/
def toName? : Node → Option String
  | text s => some s
  | integer i => some (Text.intText i)
  | _ => none

mutual

/-- The node as a setting, unless something in it has no meaning as one. -/
def toSetting? : Node → Option Setting
  | null | unfit => some .none
  | bool b => some (.bool b)
  | integer i => some (.integer i)
  | real s => (Real.ofText? s).map .real
  | text s => some (.text s)
  | list xs => (itemsToSettings? xs).map .list
  | map es => (entriesToSettings? es).map fun es => .table (Setting.lastOfEach es)

def itemsToSettings? : List Node → Option (List Setting)
  | [] => some []
  | x :: xs => do return (← x.toSetting?) :: (← itemsToSettings? xs)

def entriesToSettings? : List (Node × Node) → Option (List (String × Setting))
  | [] => some []
  | (key, x) :: es => do return (← key.toName?, ← x.toSetting?) :: (← entriesToSettings? es)

end

end Node

/-- The entries that a text gives. -/
def ofText? (s : String) : Option (List (String × Setting)) := do
  match ← (← Node.ofText? s).toSetting? with
  | .table es => some es
  | _ => none

end MappingGraph.Yaml
