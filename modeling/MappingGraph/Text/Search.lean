/-!
# Finding and replacing a piece of text

Two scans from the left over a list of characters: does a piece occur, and the text with every
occurrence of a piece replaced.  Occurrences are found from the left and do not overlap, and the
replacement is not searched again.
-/

set_option autoImplicit false

namespace MappingGraph.Text

/-- Whether `piece` occurs somewhere in the list. -/
def occurs (piece : List Char) : List Char → Bool
  | [] => piece.isEmpty
  | c :: cs => piece.isPrefixOf (c :: cs) || occurs piece cs

/-- `replaceFrom piece new skip cs` passes over `skip` characters, which belong to an occurrence
already replaced, and then replaces every further occurrence of `piece`. -/
def replaceFrom (piece new : List Char) : Nat → List Char → List Char
  | _, [] => []
  | skip + 1, _ :: cs => replaceFrom piece new skip cs
  | 0, c :: cs =>
    if piece.isPrefixOf (c :: cs) then new ++ replaceFrom piece new (piece.length - 1) cs
    else c :: replaceFrom piece new 0 cs

/-- The text with every occurrence of the non-empty `piece` replaced by `new`. -/
def replaceAll (piece new : String) (s : String) : String :=
  String.ofList (replaceFrom piece.toList new.toList 0 s.toList)

end MappingGraph.Text
