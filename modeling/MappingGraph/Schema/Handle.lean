import MappingGraph.Text.Blank
import MappingGraph.Text.Search

/-!
# Handles

A handle names a field of a schema:

    $.order.lines[].price
    $.payment.[kind=card] Card payment.number

`$` is the root, a `.` stands before each segment, and a segment that ends in `[]` goes on into the
items of an array.  A segment that begins with `[key=value]` is a *branch label*: an editor puts it
in to group the branches of a union, and it is no step into the schema.  A `.` inside brackets
separates nothing.

There are two readings.  `Handle.parse?` is strict and gives the segments to look up; `cleanPath`
takes any text and gives the path that is written into the output, without the root and the labels.
-/

set_option autoImplicit false

namespace MappingGraph

/-- One step of a path into a schema. -/
structure Segment where
  name : String
  /-- The step goes on into the items of an array. -/
  array : Bool
deriving DecidableEq, Repr

namespace Segment

/-- A segment as it is written; one `[]` at the end is the array mark. -/
def ofChars (cs : List Char) : Segment :=
  match cs.reverse with
  | ']' :: '[' :: rest => ⟨String.ofList rest.reverse, true⟩
  | _ => ⟨String.ofList cs, false⟩

def text (s : Segment) : String := if s.array then s.name ++ "[]" else s.name

end Segment

namespace Handle

/-- The depth of brackets after a character; a closing bracket without an opening one is passed
over. -/
def depthAfter (depth : Nat) (c : Char) : Nat :=
  if c = '[' then depth + 1 else if c = ']' then depth - 1 else depth

/-- Puts a character in front of the first piece. -/
def consPiece (c : Char) : List (List Char) → List (List Char)
  | [] => [[c]]
  | piece :: pieces => (c :: piece) :: pieces

/-- The pieces between the dots that stand outside of brackets, seen from inside so many
brackets. -/
def splitFrom : (depth : Nat) → List Char → List (List Char)
  | _, [] => [[]]
  | depth, c :: cs =>
    if c = '.' ∧ depth = 0 then [] :: splitFrom 0 cs
    else consPiece c (splitFrom (depthAfter depth c) cs)

/-- The pieces between the dots that stand outside of brackets; there is always one. -/
def split (cs : List Char) : List (List Char) := splitFrom 0 cs

def isBracket (c : Char) : Bool := c = '[' || c = ']'

/-- Whether a piece begins with `[key=value]`, the key not empty and without `=`. -/
def isBranchLabel : List Char → Bool
  | '[' :: cs =>
    let inKey := fun c => !isBracket c && c != '='
    !(cs.takeWhile inKey).isEmpty &&
      match cs.dropWhile inKey with
      | '=' :: value =>
        match value.dropWhile (!isBracket ·) with
        | ']' :: _ => true
        | _ => false
      | _ => false
  | _ => false

/-- The segments that pieces stand for, labels left out; a segment must have a name. -/
def segments? : List (List Char) → Option (List Segment)
  | [] => some []
  | piece :: pieces =>
    if isBranchLabel piece then segments? pieces
    else
      let segment := Segment.ofChars piece
      if segment.name.isEmpty then none
      else (segments? pieces).map (segment :: ·)

/-- The segments of a handle.  Only the root itself may stand without a dot behind it. -/
def parse? (handle : String) : Option (List Segment) :=
  match Text.trimChars handle.toList with
  | ['$'] => some []
  | '$' :: '.' :: rest => segments? (split rest)
  | _ => none

/-- The text of a handle after its root, if it has one, and the dot behind that. -/
def afterRoot : List Char → List Char
  | '$' :: '.' :: rest => rest
  | '$' :: rest => rest
  | cs => cs

/-- The path of a handle as it is written into the output: no root, no labels, no empty pieces. -/
def cleanPath (handle : String) : String :=
  let pieces := split (afterRoot (Text.trimChars handle.toList))
  String.intercalate "." <|
    (pieces.filter fun piece => !piece.isEmpty && !isBranchLabel piece).map String.ofList

/-- Whether a handle or path goes through the items of an array. -/
def isArrayPath (path : String) : Bool := Text.occurs ['[', ']'] path.toList

end Handle

end MappingGraph
