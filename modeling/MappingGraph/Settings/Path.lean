import MappingGraph.Json.Basic
import MappingGraph.Settings.Value

/-!
# Paths to settings

A path names the place of a setting: a key, then keys behind points and positions in brackets, as in
`output.format` or `compiler[0]`.  Spaces may stand in keys and around a position, and a negative
position counts from the end.  A text that is no path is a key as a whole.

`Setting.laidAt` puts a value at such a place and makes what is missing on the way.  Whatever stands
in the way gives place: a step by key needs a table, a step by position a list.
-/

set_option autoImplicit false

namespace MappingGraph

/-- One step of a path. -/
inductive PathStep where
  | key (name : String)
  | position (index : Int)
deriving DecidableEq, Repr, Inhabited

/-- The steps to a setting, the first of which is a key. -/
structure SettingPath where
  first : String
  rest : List PathStep
deriving DecidableEq, Repr, Inhabited

namespace SettingPath

/-! ## Reading a path -/

/-- The characters that a key in a path is made of. -/
def isKeyChar (c : Char) : Bool := c.isAlphanum || c = '_' || c = '-' || c = ' '

/-- Reads a key, which has at least one character. -/
def readKey? (cs : List Char) : Option (String × List Char) :=
  let name := cs.takeWhile isKeyChar
  if name.isEmpty then none else some (String.ofList name, cs.dropWhile isKeyChar)

def skipBlank (cs : List Char) : List Char := cs.dropWhile fun c => c = ' ' || c = '\t'

/-- Reads a position of 64 bits and its closing bracket. -/
def readPosition? (cs : List Char) : Option (Int × List Char) := do
  let (sign, cs) := match skipBlank cs with
    | '-' :: cs => (['-'], cs)
    | cs => ([], cs)
  let digits := sign ++ cs.takeWhile Char.isDigit
  let index ← Text.integerWithin? Number.minInteger Number.maxSigned (String.ofList digits)
  match skipBlank (cs.dropWhile Char.isDigit) with
  | ']' :: rest => return (index, rest)
  | _ => none

/-- Reads the steps after the first key.  Each takes at least one character. -/
def readSteps? : (budget : Nat) → List Char → Option (List PathStep)
  | _, [] => some []
  | budget + 1, '.' :: cs => do
    let (name, rest) ← readKey? cs
    return .key name :: (← readSteps? budget rest)
  | budget + 1, '[' :: cs => do
    let (index, rest) ← readPosition? cs
    return .position index :: (← readSteps? budget rest)
  | _, _ => none

/-- The path that a text denotes. -/
def ofText? (s : String) : Option SettingPath := do
  let (first, rest) ← readKey? s.toList
  return ⟨first, ← readSteps? rest.length rest⟩

/-- The path that a text denotes, or the text as one key. -/
def ofText (s : String) : SettingPath := (ofText? s).getD ⟨s, []⟩

end SettingPath

/-! ## Laying a value at a path -/

namespace Setting

/-- The items of a list; everything else has none. -/
def itemsOrNone : Setting → List Setting
  | list xs => xs
  | _ => []

/-- Changes the item at a position from the start.  Items up to it that are missing are made, and
have no value. -/
def changeAt (change : Setting → Setting) : Nat → List Setting → List Setting
  | 0, [] => [change none]
  | 0, x :: xs => change x :: xs
  | i + 1, [] => none :: changeAt change i []
  | i + 1, x :: xs => x :: changeAt change i xs

/-- Changes the item at a position.  One that lies before the first item is made to be the first. -/
def changeItem (change : Setting → Setting) (index : Int) (items : List Setting) : List Setting :=
  let position := if index < 0 then items.length + index else index
  if position < 0 then
    changeAt change 0 (List.replicate (-position).toNat none ++ items)
  else changeAt change position.toNat items

/-- Lays a value at the end of the steps from a setting.  A table is laid over what a key leads to
and takes the place of what stands at a position. -/
def laidAt (value : Setting) : List PathStep → Setting → Setting
  | [], _ => value
  | [.key name], below => table (layOver below.entriesOrNone name value)
  | .key name :: steps, below =>
    let entries := below.entriesOrNone
    let next := (find? (lowerWord name) entries).getD none
    table (assign (lowerWord name) (laidAt value steps next) entries)
  | .position index :: steps, below =>
    list (changeItem (laidAt value steps) index below.itemsOrNone)

end Setting

end MappingGraph
