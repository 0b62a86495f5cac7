import MappingGraph.Yaml.Scalar
import MappingGraph.Yaml.Tag

/-!
# The layout of YAML

`Token.ofText?` turns a text into its tokens.  Three things make this more than cutting the text
into pieces.

* Outside of brackets the column of a key or hyphen opens a block if it is deeper than the block
  around it, and a line that is indented less closes blocks.
* What belongs to a key or hyphen has to be indented by at least one column more.  So an indentation
  is kept for it as well, one without a block, which the first block inside replaces.
* That something is a key shows only at the colon behind it, which outside of brackets must stand on
  the same line.  So wherever a key may begin, the place in the row of tokens is kept as a
  `KeyMark`; when the colon comes, the tokens that belong before the key are inserted there.
-/

set_option autoImplicit false

namespace MappingGraph.Yaml

/-- A place where a key may have begun. -/
structure KeyMark where
  /-- Whether a colon may still make it a key. -/
  possible : Bool := false
  /-- Whether it has to become a key. -/
  required : Bool := false
  /-- How many tokens there were. -/
  position : Nat := 0
  index : Nat := 0
  line : Nat := 0
  column : Nat := 0
deriving Repr, Inhabited

/-- Gives up a place, which must not be one where a key is required. -/
def KeyMark.drop? (m : KeyMark) : Option KeyMark :=
  if m.possible && m.required then none else some { m with possible := false }

/-- An indentation that was left for a deeper one. -/
structure Indent where
  column : Int
  /-- Whether the deeper one is that of a block, whose end is a token. -/
  block : Bool
deriving Repr, Inhabited

/-- The tokens read so far, and what the next ones depend on. -/
structure Layout where
  cursor : Cursor
  /-- The tokens, the last one first. -/
  tokens : List Token := []
  count : Nat := 0
  /-- The column in which the last token began, if it is a tag or an anchor. -/
  lastColumn : Nat := 0
  /-- Whether a key may begin here. -/
  keyAllowed : Bool := true
  /-- The last place where a key may have begun, outside of all brackets. -/
  outerMark : KeyMark := {}
  /-- The same for each pair of brackets that is open, the innermost first. -/
  marks : List KeyMark := []
  /-- The column that the next tokens have to reach; there is none at first. -/
  indent : Int := -1
  /-- The indentations around it, the innermost first. -/
  indents : List Indent := []
  /-- The place behind a scalar in quotation marks or a closing bracket, where a colon is one even
  if no blank follows it. -/
  adjacentAt : Nat := 0
  /-- For each pair of square brackets that is open, whether a mapping of one pair without braces of
  its own has begun in it. -/
  pairs : List Bool := []
  /-- Whether a mapping in brackets has begun, so that a colon needs none of its own. -/
  inMapping : Bool := false

namespace Layout

def inFlow (s : Layout) : Bool := !s.marks.isEmpty

def push (s : Layout) (t : Token) : Layout :=
  { s with tokens := t :: s.tokens, count := s.count + 1 }

/-- Inserts a token so that so many come before it. -/
def insertAt (position : Nat) (t : Token) (s : Layout) : Layout :=
  let after := s.count - position
  { s with tokens := s.tokens.take after ++ t :: s.tokens.drop after, count := s.count + 1 }

/-- Passes over blanks and a comment. -/
def skipToEnd? (s : Layout) : Option Layout :=
  s.cursor.skipToEnd?.map fun c => { s with cursor := c }

/-! ## Places of keys -/

def mark (s : Layout) : KeyMark := s.marks.headD s.outerMark

def setMark (s : Layout) (m : KeyMark) : Layout :=
  match s.marks with
  | [] => { s with outerMark := m }
  | _ :: ms => { s with marks := m :: ms }

/-- Gives up the place outside of brackets unless its colon may still come: on the same line, and
within reach. -/
def expireMark? (s : Layout) : Option Layout :=
  let m := s.outerMark
  if !s.inFlow && m.possible &&
      (m.line < s.cursor.line || m.index + 1024 < s.cursor.index) then
    m.drop?.map fun m => { s with outerMark := m }
  else some s

/-- Gives up the last place. -/
def dropMark? (s : Layout) : Option Layout := s.mark.drop?.map s.setMark

/-- Keeps the place as one where a key may begin.  In the column of a block it has to. -/
def saveMark (s : Layout) : Layout :=
  if s.keyAllowed then
    let c := s.cursor
    let required := !s.inFlow && s.indent = c.column && s.indents.head?.any (·.block)
    s.setMark ⟨true, required, s.count, c.index, c.line, c.column⟩
  else s

/-! ## Indentation -/

/-- Leaves indentations that are not those of blocks. -/
def leaveGaps (s : Layout) : Layout :=
  match s.indents.dropWhile (!·.block), (s.indents.takeWhile (!·.block)).getLast? with
  | indents, some outermost => { s with indents, indent := outermost.column }
  | _, none => s

/-- Opens a block at a column if it is deeper than the block around it. -/
def openBlock (s : Layout) (column : Nat) (insert : Layout → Layout) : Layout :=
  if s.inFlow then s
  else
    let s : Layout := match s.indents with
      | ⟨outer, false⟩ :: rest =>
        if s.indent ≤ (column : Int) then { s with indent := outer, indents := rest } else s
      | _ => s
    if s.indent < (column : Int) then
      insert { s with indents := ⟨s.indent, true⟩ :: s.indents, indent := column }
    else s

/-- Demands one more column for what follows in a block. -/
def openGap (s : Layout) : Layout :=
  if !s.inFlow && s.indents.head?.any (·.block) then
    { s with indents := ⟨s.indent, false⟩ :: s.indents, indent := s.indent + 1 }
  else s

/-- Leaves indentations that are deeper than a column, from the innermost outwards. -/
def closeBlocksFrom (s : Layout) (column : Int) : List Indent → Layout
  | [] => s
  | outer :: rest =>
    if column < s.indent then
      let s := if outer.block then s.push .blockEnd else s
      closeBlocksFrom { s with indent := outer.column, indents := rest } column rest
    else s

/-- Closes the blocks that are deeper than a column. -/
def closeBlocks (s : Layout) (column : Int) : Layout :=
  if s.inFlow then s else closeBlocksFrom s column s.indents

/-! ## Blanks -/

/-- Passes over blanks, comments and line breaks.  Before the column that has to be reached, a tab
may stand on an otherwise empty line only. -/
def skipSpace? : (budget : Nat) → Layout → Option Layout
  | 0, _ => none
  | budget + 1, s =>
    match s.cursor.rest with
    | ' ' :: _ => skipSpace? budget { s with cursor := s.cursor.skip }
    | '\t' :: _ =>
      if !s.indents.isEmpty && s.cursor.leading && (s.cursor.column : Int) < s.indent then
        (skipBlankLine? s.cursor).bind fun c => skipSpace? budget { s with cursor := c }
      else skipSpace? budget { s with cursor := s.cursor.skip }
    | '\n' :: _ | '\r' :: _ =>
      skipSpace? budget
        { s with cursor := s.cursor.skipBreak, keyAllowed := s.keyAllowed || !s.inFlow }
    | '#' :: _ => skipSpace? budget { s with cursor := s.cursor.skipLine }
    | _ => some s

/-- Passes over the blanks, comments and line breaks after a question mark.  There must be a blank
or a break, and no tab. -/
def skipAfterQuestion? : (budget : Nat) → (found : Bool) → Cursor → Option Cursor
  | 0, _, _ => none
  | budget + 1, found, c =>
    match c.rest with
    | ' ' :: _ => skipAfterQuestion? budget true c.skip
    | '\n' :: _ | '\r' :: _ => skipAfterQuestion? budget true c.skipBreak
    | '#' :: _ => skipAfterQuestion? budget found c.skipLine
    | '\t' :: _ => none
    | _ => if found then some c else none

/-! ## Brackets -/

/-- Ends a mapping that has no braces of its own. -/
def endPair (s : Layout) : Layout :=
  match s.pairs with
  | true :: rest => { s with pairs := false :: rest, inMapping := false }.push .flowMappingEnd
  | _ => s

/-- A bracket may open a key and always opens the place for one. -/
def openFlow? (s : Layout) (t : Token) : Option Layout := do
  let s := s.saveMark.openGap
  if 255 ≤ s.marks.length then none
  else
    let s := { s with marks := {} :: s.marks, keyAllowed := true, cursor := s.cursor.skip }
    let s := if t = .flowMappingStart then { s with inMapping := true }
      else { s with pairs := false :: s.pairs }
    return (← s.skipToEnd?).push t

def closeFlow? (s : Layout) (t : Token) : Option Layout := do
  let s ← s.dropMark?
  let s := { s with marks := s.marks.drop 1, keyAllowed := false }
  let s := if t = .flowSequenceEnd then { s.endPair with pairs := s.pairs.drop 1 } else s
  let s ← { s with cursor := s.cursor.skip }.skipToEnd?
  return { s with adjacentAt := if s.inFlow then s.cursor.index else s.adjacentAt }.push t

def comma? (s : Layout) : Option Layout := do
  let s := { ← s.dropMark? with keyAllowed := true }.endPair
  return (← { s with cursor := s.cursor.skip }.skipToEnd?).push .flowEntry

/-! ## Blocks -/

/-- Whether the last token is a tag or an anchor at the start of a line. -/
def afterMargin (s : Layout) : Bool :=
  s.lastColumn = 0 && match s.tokens with
    | .anchor _ :: _ | .tag _ _ :: _ => true
    | _ => false

/-- A hyphen is an entry of a block, outside of brackets only. -/
def hyphen? (s : Layout) : Option Layout := do
  let column := s.cursor.column
  if s.inFlow || !s.keyAllowed || (column = 0 && s.afterMargin && -1 < s.indent) then none
  else
    let s := { s with cursor := s.cursor.skip }.openBlock column (·.push .blockSequenceStart)
    let (blanks, c) ← s.cursor.readBlanks?
    let another := match c.rest with
      | '-' :: after => endsWord after
      | _ => false
    if '\t' ∈ blanks && another then none
    else
      let s := { s with cursor := c }
      let s := if c.rest.head?.any fun x => isBreak x || isFlowChar x then s.openGap else s
      return { ← s.dropMark? with keyAllowed := true }.push .blockEntry

/-- A question mark announces a key. -/
def question? (s : Layout) : Option Layout := do
  if !s.inFlow && !s.keyAllowed then none
  else
    let s := if s.inFlow then { s with inMapping := true }
      else s.openBlock s.cursor.column (·.push .blockMappingStart)
    let s := { ← s.dropMark? with keyAllowed := !s.inFlow }
    let c ← skipAfterQuestion? (s.cursor.rest.length + 1) false s.cursor.skip
    return { s with cursor := c }.push .key

/-- Passes over a colon.  A tab behind it must not be the only blank before a word. -/
def skipColon? (c : Cursor) : Option Cursor := do
  let c := c.skip
  if c.rest.head? = some '\t' then
    let (blanks, c) ← c.readBlanks?
    if ' ' ∉ blanks && c.rest.head?.any isWordChar then none else return c
  else return c

/-- A colon makes a key of what began at the last place, or comes after a key that was announced.
In square brackets the pair is a mapping of its own, and its key must be on the line of the
colon. -/
def colon? (s : Layout) : Option Layout := do
  let m := s.mark
  let here := s.cursor
  let alone := !s.pairs.isEmpty && !s.inMapping
  let pairs := if alone then true :: s.pairs.drop 1 else s.pairs
  let s := { s with pairs, cursor := ← skipColon? here }
  if m.possible then
    if alone && m.line < here.line then none
    else
      let s := s.insertAt m.position .key
      let s := if alone then s.insertAt m.position .flowMappingStart else s
      let s := (s.openBlock m.column (insertAt m.position .blockMappingStart)).openGap
      return { s.setMark { m with possible := false } with keyAllowed := false }.push .value
  else
    let s := if alone then s.push .flowMappingStart else s
    if !s.inFlow && !s.keyAllowed then none
    else
      let s := (s.openBlock here.column (·.push .blockMappingStart)).openGap
      return { s with keyAllowed := !s.inFlow }.push .value

/-! ## Documents -/

/-- A marker of a document, or a directive, ends everything before it. -/
def endDocument? (s : Layout) : Option Layout := do
  let s ← (s.closeBlocks (-1)).dropMark?
  return { s with keyAllowed := false }

def addDirective? (s : Layout) : Option Layout := do
  let s ← s.endDocument?
  let (t, c) ← readDirective? s.cursor
  return { s with cursor := c }.push t

def addDocumentStart? (s : Layout) : Option Layout := do
  let s ← s.endDocument?
  return { s with cursor := s.cursor.skipMany 3 }.push .documentStart

/-- Nothing but a comment may follow the end of a document on its line. -/
def addDocumentEnd? (s : Layout) : Option Layout := do
  let s ← s.endDocument?
  let s ← { s with cursor := s.cursor.skipMany 3 }.skipToEnd?
  if s.cursor.atLineEnd then return s.push .documentEnd else none

/-! ## Content -/

/-- Adds a tag, an anchor or an alias, which may be where a key begins. -/
def addProperty? (s : Layout) (read : Cursor → Option (Token × Cursor)) : Option Layout := do
  let s := s.saveMark
  let (t, c) ← read s.cursor
  return { s with cursor := c, keyAllowed := false, lastColumn := s.cursor.column }.push t

/-- Adds an anchor or alias. -/
def addAnchor? (s : Layout) (token : String → Token) : Option Layout :=
  s.addProperty? fun c => (readAnchor? c.skip).map fun (name, c) => (token name, c)

/-- Whether the place behind a scalar in quotation marks that began on a line is one where it may
end. -/
def atQuotedEnd (s : Layout) (line : Nat) : Bool :=
  match s.cursor.rest with
  | [] => true
  | x :: _ => isBreak x || (s.inFlow && (x = ',' || x = '\x7d' || x = ']')) ||
      (x = ':' && (s.inFlow || line = s.cursor.line))

/-- Adds a scalar in quotation marks. -/
def addQuoted? (s : Layout) (single : Bool) : Option Layout := do
  let line := s.cursor.line
  let s := { s.saveMark with keyAllowed := false }
  let (text, c) ← readQuoted single s.indent (s.cursor.rest.length + 1) [] s.cursor.skip
  let s ← { s with cursor := c }.skipToEnd?
  if s.atQuotedEnd line then
    let s ← skipSpace? (s.cursor.rest.length + 1) s
    return { s with adjacentAt := s.cursor.index }.push
      (.scalar false (String.ofList text.reverse))
  else none

/-- Adds a plain scalar, after which a key may begin if its line has ended. -/
def addPlain? (s : Layout) : Option Layout := do
  let s := s.saveMark.leaveGaps
  let margin := s.indent + 1
  if s.inFlow && (s.cursor.column : Int) < margin then none
  else
    let (text, broken, c) ← readPlain? s.inFlow margin s.cursor
    return { s with cursor := c, keyAllowed := broken }.push (.scalar true text)

/-- Adds a block scalar, after which a key may begin. -/
def addBlock? (s : Layout) (literal : Bool) : Option Layout := do
  let s := s.saveMark.leaveGaps
  let (text, c) ← readBlock? literal s.indent s.cursor.skip
  return { s with cursor := c, keyAllowed := true }.push (.scalar false (String.ofList text))

/-- Adds the token that begins with a character, which must not stand before the column that has to
be reached. -/
def addToken? (s : Layout) (x : Char) (after : List Char) : Option Layout :=
  let c := s.cursor
  if c.column = 0 && x = '%' then s.addDirective?
  else if c.atMarker '-' then s.addDocumentStart?
  else if c.atMarker '.' then s.addDocumentEnd?
  else if (c.column : Int) < s.indent then none
  else if x = '[' then s.openFlow? .flowSequenceStart
  else if x = '\x7b' then s.openFlow? .flowMappingStart
  else if x = ']' then s.closeFlow? .flowSequenceEnd
  else if x = '\x7d' then s.closeFlow? .flowMappingEnd
  else if x = ',' then s.comma?
  else if x = '-' && endsWord after then s.hyphen?
  else if x = '?' && endsWord after then s.question?
  else if x = ':' && (endsWord after ||
      (s.inFlow && (after.head?.any isFlowChar || c.index = s.adjacentAt))) then s.colon?
  else if x = '*' then s.addAnchor? .alias
  else if x = '&' then s.addAnchor? .anchor
  else if x = '!' then s.addProperty? (readTag? s.inFlow)
  else if x = '|' && !s.inFlow then s.addBlock? true
  else if x = '>' && !s.inFlow then s.addBlock? false
  else if x = '\'' then s.addQuoted? true
  else if x = '"' then s.addQuoted? false
  else if x = '%' || x = '@' || x = '\x60' then none
  else s.addPlain?

/-- Adds the tokens that the end of the text brings about. -/
def finish? (s : Layout) : Option Layout := do
  let outerMark ← s.outerMark.drop?
  return { s with outerMark }.closeBlocks (-1)

/-- Adds all tokens up to the end of the text; each takes at least one character. -/
def run : (budget : Nat) → Layout → Option Layout
  | 0, _ => none
  | budget + 1, s => do
    let s ← (← skipSpace? (s.cursor.rest.length + 1) s).expireMark?
    let s := s.closeBlocks s.cursor.column
    match s.cursor.rest with
    | [] => s.finish?
    | x :: after => run budget (← s.addToken? x after)

end Layout

/-- The tokens of a text.  A null character ends it. -/
def Token.ofText? (s : String) : Option (List Token) :=
  let cs := s.toList.takeWhile (· != '\x00')
  (Layout.run (cs.length + 2) { cursor := { rest := cs } }).map fun done => done.tokens.reverse

end MappingGraph.Yaml
