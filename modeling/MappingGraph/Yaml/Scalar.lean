import MappingGraph.Text.Numeral
import MappingGraph.Yaml.Token

/-!
# The scalars of YAML

A scalar is written in one of three ways.  A plain one and one in quotation marks may go on over the
end of a line, and what separates two pieces, a `Gap`, is folded: one line break becomes a blank, of
several the first is left out.  A block scalar is a header and the lines below it, as far as they
are indented; the header says whether line breaks are kept, and what becomes of the last ones.

The functions answer with the text and the place after it, or `none` if the text is not well formed.
-/

set_option autoImplicit false

namespace MappingGraph.Yaml

/-- What lies between two pieces of a scalar: blanks, or line breaks. -/
structure Gap where
  /-- Blanks before a line break, the last one first. -/
  blanks : List Char := []
  /-- Whether a line was broken. -/
  broken : Bool := false
  /-- Whether the first break is one that is folded; one after a backslash is not. -/
  folded : Bool := false
  /-- How many breaks follow the first. -/
  more : Nat := 0

namespace Gap

/-- The text that the gap stands for, in reverse. -/
def reversed (g : Gap) : List Char :=
  if g.broken then
    if g.folded && g.more = 0 then [' '] else List.replicate g.more '\n'
  else g.blanks

/-- The gap with a line break added. -/
def addBreak (g : Gap) : Gap :=
  if g.broken then { g with more := g.more + 1 } else ⟨[], true, true, 0⟩

/-- The gap with a blank added. -/
def addBlank (g : Gap) (c : Char) : Gap :=
  if g.broken then g else { g with blanks := c :: g.blanks }

/-- Reads blanks and line breaks.  At the start of a line, `tab` decides what becomes of a tab
before the margin. -/
def read? (margin : Int) (tab : Cursor → Option Cursor) :
    (budget : Nat) → Gap → Cursor → Option (Gap × Cursor)
  | 0, _, _ => none
  | budget + 1, g, c =>
    match c.rest with
    | [] => some (g, c)
    | x :: _ =>
      if isBlank x then
        if g.broken && x = '\t' && (c.column : Int) < margin then
          (tab c).bind (read? margin tab budget g)
        else read? margin tab budget (g.addBlank x) c.skip
      else if isBreak x then read? margin tab budget g.addBreak c.skipBreak
      else some (g, c)

end Gap

/-! ## Plain scalars -/

/-- The characters of a plain scalar up to a blank or an indicator that ends it. -/
def plainPiece (inFlow : Bool) : List Char → List Char
  | [] => []
  | c :: cs =>
    if isBlank c || isBreak c then []
    else if c = ':' && (endsWord cs || (inFlow && cs.head?.any isFlowChar)) then []
    else if inFlow && isFlowChar c then []
    else c :: plainPiece inFlow cs

/-- Whether a hyphen and a character with a meaning inside brackets follow. -/
def atLoneHyphen (c : Cursor) : Bool :=
  match c.rest with
  | '-' :: x :: _ => isFlowChar x
  | _ => false

/-- Passes over a line on which nothing but blanks and a comment is left. -/
def skipBlankLine? (c : Cursor) : Option Cursor := c.skipToEnd?.filter (·.atLineEnd)

/-- Reads a plain scalar; what was read of it is kept in reverse.  Outside of brackets it ends at a
line that is indented less than the margin.  The answer says whether a line break follows it. -/
def readPieces? (inFlow : Bool) (margin : Int) :
    (budget : Nat) → List Char → Gap → Cursor → Option (List Char × Bool × Cursor)
  | 0, _, _, _ => none
  | budget + 1, acc, gap, c =>
    if c.atDocumentMarker || c.rest.head? = some '#' then some (acc, gap.broken, c)
    else if inFlow && atLoneHyphen c then none
    else
      let piece := plainPiece inFlow c.rest
      let (acc, gap) :=
        if piece.isEmpty then (acc, gap) else (piece.reverse ++ gap.reversed ++ acc, ({} : Gap))
      let c := c.skipMany piece.length
      if c.rest.head?.any fun x => isBlank x || isBreak x then do
        let (gap, c) ← gap.read? margin skipBlankLine? (c.rest.length + 1) c
        if !inFlow && (c.column : Int) < margin then some (acc, gap.broken, c)
        else readPieces? inFlow margin budget acc gap c
      else some (acc, gap.broken, c)

/-- Reads a plain scalar of at least one character. -/
def readPlain? (inFlow : Bool) (margin : Int) (c : Cursor) : Option (String × Bool × Cursor) := do
  let (text, broken, after) ← readPieces? inFlow margin (c.rest.length + 1) [] {} c
  if text.isEmpty then none else return (String.ofList text.reverse, broken, after)

/-! ## Scalars in quotation marks -/

/-- The character that a character after a backslash stands for. -/
def escapeOf? (c : Char) : Option Char :=
  if c = '0' then some '\x00'
  else if c = 'a' then some '\x07'
  else if c = 'b' then some '\x08'
  else if c = 't' || c = '\t' then some '\t'
  else if c = 'n' then some '\n'
  else if c = 'v' then some '\x0b'
  else if c = 'f' then some '\x0c'
  else if c = 'r' then some '\r'
  else if c = 'e' then some '\x1b'
  else if c = ' ' || c = '"' || c = '/' || c = '\\' then some c
  else if c = 'N' then some '\u0085'
  else if c = '_' then some '\u00a0'
  else if c = 'L' then some '\u2028'
  else if c = 'P' then some '\u2029'
  else none

/-- How many hexadecimal digits follow a letter after a backslash. -/
def codeLength : Char → Nat
  | 'x' => 2
  | 'u' => 4
  | 'U' => 8
  | _ => 0

/-- Reads what follows a backslash. -/
def readEscape? (c : Cursor) : Option (Char × Cursor) := do
  let letter ← c.rest.head?
  let length := codeLength letter
  if length = 0 then return (← escapeOf? letter, c.skip)
  else
    let digits := (c.rest.drop 1).take length
    if digits.length < length then none
    else return (← Text.charOfHex? digits, c.skipMany (length + 1))

/-- How the reading of a piece in quotation marks stopped. -/
inductive Stop where
  | closed
  /-- A line break after a backslash, which is left out. -/
  | joined
  | gap
deriving DecidableEq

/-- Reads characters up to a blank, a line break or the closing quotation mark. -/
def readQuotedPiece (single : Bool) :
    (budget : Nat) → List Char → Cursor → Option (List Char × Stop × Cursor)
  | 0, _, _ => none
  | budget + 1, acc, c =>
    match c.rest with
    | [] => some (acc, .gap, c)
    | x :: rest =>
      if isBlank x || isBreak x then some (acc, .gap, c)
      else if single && x = '\'' && rest.head? = some '\'' then
        readQuotedPiece single budget ('\'' :: acc) c.skip.skip
      else if x = (if single then '\'' else '"') then some (acc, .closed, c.skip)
      else if !single && x = '\\' then
        if rest.head?.any isBreak then some (acc, .joined, c.skip.skipBreak)
        else do
          let (e, c) ← readEscape? c.skip
          readQuotedPiece single budget (e :: acc) c
      else readQuotedPiece single budget (x :: acc) c.skip

/-- Reads a scalar after its opening quotation mark.  No line of it may be indented less than the
margin. -/
def readQuoted (single : Bool) (margin : Int) :
    (budget : Nat) → List Char → Cursor → Option (List Char × Cursor)
  | 0, _, _ => none
  | budget + 1, acc, c => do
    if c.atDocumentMarker || c.rest.isEmpty || (c.column : Int) < margin then none
    else
      let (acc, stop, c) ← readQuotedPiece single (c.rest.length + 1) acc c
      let closing := if single then '\'' else '"'
      if stop = .closed then some (acc, c)
      else if stop = .joined && c.rest.head? = some closing then some (acc, c.skip)
      else
        let start : Gap := { broken := stop = .joined }
        let (gap, c) ← start.read? margin (fun _ => none) (c.rest.length + 1) c
        readQuoted single margin budget (gap.reversed ++ acc) c

/-! ## Block scalars -/

/-- What becomes of the line breaks at the end. -/
inductive Chomping where
  | strip
  | clip
  | keep
deriving DecidableEq

/-- Reads how the last line breaks are treated. -/
def readChomping (c : Cursor) : Option Chomping × Cursor :=
  match c.rest.head? with
  | some '+' => (some .keep, c.skip)
  | some '-' => (some .strip, c.skip)
  | _ => (none, c)

/-- Reads by how much the lines are indented, a digit other than zero. -/
def readIncrement? (c : Cursor) : Option (Option Nat × Cursor) :=
  match c.rest.head? with
  | some d =>
    if d = '0' then none
    else if d.isDigit then some (some (Text.digitValue d), c.skip)
    else some (none, c)
  | none => some (none, c)

/-- Reads the header of a block scalar up to the end of its line.  The two indications may come in
either order. -/
def readHeader? (c : Cursor) : Option (Chomping × Option Nat × Cursor) := do
  let (before, c) := readChomping c
  let (increment, c) ← readIncrement? c
  let (after, c) := if before.isNone && increment.isSome then readChomping c else (none, c)
  let c ← c.skipToEnd?
  if c.atLineEnd then return ((before <|> after).getD .clip, increment, c.skipBreak) else none

/-- Passes over empty lines, whose breaks are counted, and over the blanks before the next line, at
most up to an indentation if there is one.  The answer tells the deepest column that was met. -/
def skipIndent (indent : Option Nat) :
    (budget : Nat) → (deepest breaks : Nat) → Cursor → Nat × Nat × Cursor
  | 0, deepest, breaks, c => (deepest, breaks, c)
  | budget + 1, deepest, breaks, c =>
    let blanks := (c.rest.takeWhile (· = ' ')).length
    let c := c.skipMany (match indent with
      | some n => min blanks (n - c.column)
      | none => blanks)
    let deepest := max deepest c.column
    if c.rest.head?.any isBreak then skipIndent indent budget deepest (breaks + 1) c.skipBreak
    else (deepest, breaks, c)

/-- A block scalar in the middle of being read: its text so far in reverse, whether the break of the
last line is still to be written, how many breaks of empty lines follow it, and whether the last
line began with a blank, in which case the break after it is not folded. -/
structure BlockState where
  reversed : List Char := []
  lastBreak : Bool := false
  emptyLines : Nat := 0
  lastBlank : Bool := false

namespace BlockState

/-- Adds the characters of a line, and before it the breaks that were held back. -/
def addLine (s : BlockState) (literal : Bool) (line : List Char) : BlockState :=
  let blank := line.head?.any isBlank
  let joint :=
    if !literal && s.lastBreak && !s.lastBlank && !blank then
      if s.emptyLines = 0 then [' '] else []
    else if s.lastBreak then ['\n'] else []
  { reversed := line.reverse ++ List.replicate s.emptyLines '\n' ++ joint ++ s.reversed
    lastBlank := blank }

/-- The text, its last line breaks treated as the header says.  A text that ends in the last line
without breaking it counts as if it did. -/
def finish (s : BlockState) (chomping : Chomping) (unbroken : Bool) : List Char :=
  let last := if s.lastBreak then ['\n'] else []
  let added := if unbroken then ['\n'] else []
  let empty := if chomping = .keep then List.replicate s.emptyLines '\n' else []
  s.reversed.reverse ++ (if chomping = .strip then [] else last ++ added) ++ empty

end BlockState

/-- Reads the lines of a block scalar. -/
def readLines (literal : Bool) (indent : Nat) :
    (budget : Nat) → BlockState → Cursor → BlockState × Cursor
  | 0, s, c => (s, c)
  | budget + 1, s, c =>
    if c.column != indent || c.rest.isEmpty || (indent = 0 && c.atDocumentMarker) then (s, c)
    else
      let (line, c) := c.span (!isBreak ·)
      let s := s.addLine literal line
      if c.rest.isEmpty then (s, c)
      else
        let (_, breaks, c) := skipIndent (some indent) (c.rest.length + 1) 0 0 c.skipBreak
        readLines literal indent budget { s with lastBreak := true, emptyLines := breaks } c

/-- The text of a block scalar without lines at the end of the text; `headed` says whether the line
of its header was broken. -/
def emptyBlock (chomping : Chomping) (headed : Bool) (breaks : Nat) : List Char :=
  if chomping = .strip || !headed then []
  else if chomping = .clip then ['\n']
  else List.replicate (max 1 breaks) '\n'

/-- Reads a block scalar after its indicator.  An indentation in the header counts from that of the
parent; without one, the first line tells it, which is deeper than the parent's. -/
def readBlock? (literal : Bool) (parent : Int) (c : Cursor) : Option (List Char × Cursor) := do
  let header := c.line
  let (chomping, increment, c) ← readHeader? c
  if c.rest.head? = some '\t' then none
  else
    let given := increment.map fun n => (max parent 0).toNat + n
    let (deepest, breaks, c) := skipIndent given (c.rest.length + 1) 0 0 c
    let indent := given.getD (max deepest (parent + 1).toNat)
    if c.rest.isEmpty then return (emptyBlock chomping (header < c.line) breaks, c)
    else if c.column < indent && parent < (c.column : Int) then none
    else
      let (s, c) := readLines literal indent (c.rest.length + 1) { emptyLines := breaks } c
      return (s.finish chomping (c.rest.isEmpty && max indent 1 ≤ c.column), c)

end MappingGraph.Yaml
