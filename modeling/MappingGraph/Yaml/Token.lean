/-!
# The tokens of YAML

A YAML text is read as a row of tokens in which the structure that indentation gives is made
explicit: a block that begins and ends by indentation has tokens for its start and its end, and
every key of a mapping has a token before it.
-/

set_option autoImplicit false

namespace MappingGraph.Yaml

/-- A token. -/
inductive Token where
  /-- The directive that names the version. -/
  | version
  /-- Any other directive, with the handle that it declares and what the handle stands for. -/
  | tagDirective (handle base : String)
  | documentStart
  | documentEnd
  | blockSequenceStart
  | blockMappingStart
  | blockEnd
  | flowSequenceStart
  | flowSequenceEnd
  | flowMappingStart
  | flowMappingEnd
  /-- The hyphen before an item of a block. -/
  | blockEntry
  /-- The comma between items in brackets. -/
  | flowEntry
  /-- A key follows. -/
  | key
  /-- The value of a key follows. -/
  | value
  | anchor (name : String)
  | alias (name : String)
  | tag (handle suffix : String)
  /-- A scalar; only a plain one, without quotation marks, may be something else than a string. -/
  | scalar (plain : Bool) (text : String)
deriving DecidableEq, Repr, Inhabited

/-! ## Characters -/

def isBreak (c : Char) : Bool := c = '\n' || c = '\r'

def isBlank (c : Char) : Bool := c = ' ' || c = '\t'

/-- Whether the rest of a text begins with a blank or a line break, or is empty. -/
def endsWord : List Char → Bool
  | [] => true
  | c :: _ => isBlank c || isBreak c

/-- The characters with a meaning of their own inside brackets. -/
def isFlowChar (c : Char) : Bool := c = ',' || c = '[' || c = ']' || c = '\x7b' || c = '\x7d'

/-- The characters of the handles of tags and of the names of directives. -/
def isWordChar (c : Char) : Bool := c.isAlphanum || c = '_' || c = '-'

/-- The characters of anchors: all but blanks, line breaks, the byte order mark and those with a
meaning inside brackets. -/
def isAnchorChar (c : Char) : Bool :=
  !isBlank c && !isBreak c && !isFlowChar c && c != '\uFEFF'

/-! ## Places -/

/-- A place in a text: what follows it, how many characters lie before it, and its line and
column. -/
structure Cursor where
  rest : List Char
  index : Nat := 0
  line : Nat := 0
  column : Nat := 0
  /-- Whether nothing but blanks comes before it on its line. -/
  leading : Bool := true
deriving Repr, Inhabited

namespace Cursor

/-- The place after the next character. -/
def skip (c : Cursor) : Cursor :=
  match c.rest with
  | [] => c
  | x :: rest =>
    if x = '\n' || (x = '\r' && rest.head? != some '\n') then
      ⟨rest, c.index + 1, c.line + 1, 0, true⟩
    else ⟨rest, c.index + 1, c.line, c.column + 1, c.leading && isBlank x⟩

/-- The place so many characters further on. -/
def skipMany (c : Cursor) : Nat → Cursor
  | 0 => c
  | n + 1 => c.skip.skipMany n

/-- The place after a line break, which may consist of two characters. -/
def skipBreak (c : Cursor) : Cursor :=
  match c.rest with
  | '\r' :: '\n' :: _ => c.skip.skip
  | '\r' :: _ | '\n' :: _ => c.skip
  | _ => c

/-- The characters up to the first that does not fit, and the place of that one. -/
def span (c : Cursor) (fits : Char → Bool) : List Char × Cursor :=
  let taken := c.rest.takeWhile fits
  (taken, c.skipMany taken.length)

/-- The place of the next line break. -/
def skipLine (c : Cursor) : Cursor := (c.span (!isBreak ·)).2

/-- The place of the next character that is no blank. -/
def skipBlanks (c : Cursor) : Cursor := (c.span isBlank).2

/-- Reads blanks and a comment, if there is one, which must stand apart from what is before it. -/
def readBlanks? (c : Cursor) : Option (List Char × Cursor) :=
  let (blanks, c) := c.span isBlank
  if c.rest.head? = some '#' then
    if blanks.isEmpty then none else some (blanks, c.skipLine)
  else some (blanks, c)

/-- Passes over blanks and a comment. -/
def skipToEnd? (c : Cursor) : Option Cursor := c.readBlanks?.map (·.2)

/-- Whether a break or the end of the text comes next. -/
def atLineEnd (c : Cursor) : Bool := c.rest.head?.all isBreak

/-- Whether the three characters of a document marker stand at the start of a line. -/
def atMarker (c : Cursor) (mark : Char) : Bool :=
  match c.rest with
  | x :: y :: z :: rest => c.column = 0 && x = mark && y = mark && z = mark && endsWord rest
  | _ => false

/-- Whether a document begins or ends here. -/
def atDocumentMarker (c : Cursor) : Bool := c.atMarker '-' || c.atMarker '.'

end Cursor

end MappingGraph.Yaml
