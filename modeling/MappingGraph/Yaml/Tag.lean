import MappingGraph.Text.Numeral
import MappingGraph.Yaml.Token

/-!
# Tags, anchors and directives of YAML

The tokens that begin with `!`, `&`, `*` and `%`.  The functions answer with what was read and the
place after it, or `none` if it is not well formed.
-/

set_option autoImplicit false

namespace MappingGraph.Yaml

/-- Reads a name of at least one character. -/
def readAnchor? (c : Cursor) : Option (String × Cursor) :=
  let (name, after) := c.span isAnchorChar
  if name.isEmpty then none else some (String.ofList name, after)

/-! ## Characters of tags -/

/-- The characters of a tag in angle brackets. -/
def isUriChar (c : Char) : Bool :=
  c.isAlphanum || c = '-' || c ∈ ['#', ';', '/', '?', ':', '@', '&', '=', '+', '$', ',', '_', '.',
    '!', '~', '*', '\'', '(', ')', '[', ']', '%']

/-- The characters of a tag that may stand inside brackets. -/
def isTagChar (c : Char) : Bool := isUriChar c && !isFlowChar c && c != '!'

/-- The number of a byte that is written as a percent sign and two hexadecimal digits. -/
def octet? (c : Cursor) : Option Nat :=
  match c.rest with
  | '%' :: a :: b :: _ => Text.hexNumber? [a, b]
  | _ => none

/-- How many bytes follow one that begins a character. -/
def followers? (octet : Nat) : Option Nat :=
  if octet < 0x80 then some 0
  else if 0xC0 ≤ octet && octet < 0xE0 then some 1
  else if 0xE0 ≤ octet && octet < 0xF0 then some 2
  else if 0xF0 ≤ octet && octet < 0xF8 then some 3
  else none

/-- Reads further bytes, which are put together as they are. -/
def readFollowers? (code : Nat) (c : Cursor) : Nat → Option (Nat × Cursor)
  | 0 => some (code, c)
  | n + 1 => do
    let octet ← octet? c
    if 0x80 ≤ octet && octet < 0xC0 then readFollowers? (256 * code + octet) (c.skipMany 3) n
    else none

/-- Reads bytes that stand for a character. -/
def readEncoded? (c : Cursor) : Option (Char × Cursor) := do
  let octet ← octet? c
  let (code, c) ← readFollowers? octet (c.skipMany 3) (← followers? octet)
  return (← Text.charOfNumber? code, c)

/-- Reads characters of a tag. -/
def readTagChars? (fits : Char → Bool) : (budget : Nat) → Cursor → Option (List Char × Cursor)
  | 0, _ => none
  | budget + 1, c =>
    match c.rest with
    | [] => some ([], c)
    | x :: _ =>
      if !fits x then some ([], c)
      else do
        let (x, c) ← if x = '%' then readEncoded? c else some (x, c.skip)
        let (xs, c) ← readTagChars? fits budget c
        return (x :: xs, c)

/-! ## Tags -/

/-- Reads the handle of a tag: `!`, or a word between two exclamation marks.  A word without the
second mark is no handle, which only a directive insists on. -/
def readHandle? (directive : Bool) (c : Cursor) : Option (String × Cursor) :=
  if c.rest.head? = some '!' then
    let (word, after) := c.skip.span isWordChar
    if after.rest.head? = some '!' then some (String.ofList ('!' :: word ++ ['!']), after.skip)
    else if directive && !word.isEmpty then none
    else some (String.ofList ('!' :: word), after)
  else none

/-- Reads a tag in angle brackets. -/
def readWholeTag? (c : Cursor) : Option (Token × Cursor) := do
  let (xs, after) ← readTagChars? isUriChar (c.rest.length + 1) c
  if after.rest.head? = some '>' then some (.tag "" (String.ofList xs), after.skip) else none

/-- Reads a tag that consists of a handle and a suffix.  A handle that is not closed by an
exclamation mark belongs to the suffix. -/
def readShortTag? (c : Cursor) : Option (Token × Cursor) := do
  let (handle, after) ← readHandle? false c
  let (xs, after) ← readTagChars? isTagChar (after.rest.length + 1) after
  if 2 ≤ handle.length && handle.endsWith "!" then
    if xs.isEmpty then none else some (.tag handle (String.ofList xs), after)
  else
    let suffix := String.ofList (handle.toList.drop 1 ++ xs)
    some (if suffix.isEmpty then .tag "" "!" else .tag "!" suffix, after)

/-- Reads a tag, after which it must be clear that it ends. -/
def readTag? (inFlow : Bool) (c : Cursor) : Option (Token × Cursor) := do
  let (token, after) ← match c.rest with
    | '!' :: '<' :: _ => readWholeTag? (c.skipMany 2)
    | _ => readShortTag? c
  if endsWord after.rest || (inFlow && after.rest.head?.any isFlowChar) then some (token, after)
  else none

/-! ## Directives -/

/-- Passes over a number of at most nine digits. -/
def skipVersion? (c : Cursor) : Option Cursor :=
  let (digits, after) := c.span Char.isDigit
  if digits.isEmpty || 9 < digits.length then none else some after

/-- Reads what a handle stands for: a tag that is local or not. -/
def readBase? (c : Cursor) : Option (String × Cursor) := do
  let (head, after) ← match c.rest with
    | '!' :: _ => some ('!', c.skip)
    | x :: _ =>
      if !isTagChar x then none else if x = '%' then readEncoded? c else some (x, c.skip)
    | [] => none
  let (xs, after) ← readTagChars? isUriChar (after.rest.length + 1) after
  return (String.ofList (head :: xs), after)

/-- Reads the rest of a directive with the name. -/
def readParameters? (name : String) (c : Cursor) : Option (Token × Cursor) := do
  if name = "YAML" then
    let after ← skipVersion? c.skipBlanks
    if after.rest.head? = some '.' then return (.version, ← skipVersion? after.skip) else none
  else if name = "TAG" then
    let (handle, after) ← readHandle? true c.skipBlanks
    let (base, after) ← readBase? after.skipBlanks
    if endsWord after.rest then some (.tagDirective handle base, after) else none
  else some (.tagDirective "" "", c.skipLine)

/-- Reads a directive and its line break. -/
def readDirective? (c : Cursor) : Option (Token × Cursor) := do
  let (name, after) := c.skip.span isWordChar
  if name.isEmpty || !endsWord after.rest then none
  else
    let (token, after) ← readParameters? (String.ofList name) after
    let after ← after.skipToEnd?
    if after.atLineEnd then some (token, after.skipBreak) else none

end MappingGraph.Yaml
