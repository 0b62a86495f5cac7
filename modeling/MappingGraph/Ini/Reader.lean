import MappingGraph.Settings.Value
import MappingGraph.Text.Blank

/-!
# Reading INI

An INI text is a list of `key = value` lines, gathered under headers `[section]`.  All values are
texts.  The rules are loose in places and strict in others:

* a key runs up to the next `=` or `:`, over the ends of lines if need be, and so does the name of a
  section up to its bracket;
* a value runs to the end of its line; at its start a part of it may stand in quotation marks, and
  then goes on over the end of the line;
* a backslash begins an escape everywhere, and joins two lines at the end of one;
* a comment takes a line of its own and begins with the first character of it.

A section that comes a second time takes the place of the first, as does a key inside a section.
-/

set_option autoImplicit false

namespace MappingGraph.Ini

/-! ## Pieces of text -/

/-- The character that a character after a backslash stands for. -/
def escapeOf (c : Char) : Char :=
  if c = '0' then '\x00'
  else if c = 'a' then '\x07'
  else if c = 'b' then '\x08'
  else if c = 't' then '\t'
  else if c = 'r' then '\r'
  else if c = 'n' then '\n'
  else c

/-- The character with a number of four characters: hexadecimal digits, of which the first may be a
plus sign. -/
def charOfCode? : List Char → Option Char
  | '+' :: digits => Text.charOfHex? digits
  | digits => Text.charOfHex? digits

/-- Reads up to a character that ends the piece, or up to the end of the text if that may end it as
well. -/
def readUntil (isEnd : Char → Bool) (orEnd : Bool) : List Char → Option (List Char × List Char)
  | [] => if orEnd then some ([], []) else none
  | ['\\'] => if orEnd then some (['\\'], []) else none
  | '\\' :: '\n' :: cs => readUntil isEnd orEnd cs
  | '\\' :: 'x' :: a :: b :: c :: d :: cs => do
    let e ← charOfCode? [a, b, c, d]
    let (text, rest) ← readUntil isEnd orEnd cs
    return (e :: text, rest)
  | '\\' :: c :: cs => do
    if c = 'x' then none
    else
      let (text, rest) ← readUntil isEnd orEnd cs
      return (escapeOf c :: text, rest)
  | c :: cs =>
    if isEnd c then some ([], c :: cs)
    else (readUntil isEnd orEnd cs).map fun (text, rest) => (c :: text, rest)

def isLineEnd (c : Char) : Bool := c = '\n' || c = '\r'

/-- Reads a part in quotation marks, after the first of them, and the rest of the line. -/
def readQuoted? (quote : Char) (cs : List Char) : Option (List Char × List Char) := do
  let (text, rest) ← readUntil (· = quote) false cs
  let (more, rest) ← readUntil isLineEnd true (rest.drop 1)
  return (text ++ more, rest)

/-- Reads the value after an equals sign. -/
def readValue? (cs : List Char) : Option (List Char × List Char) :=
  match cs.dropWhile fun c => Text.isBlank c && !isLineEnd c with
  | '"' :: cs => readQuoted? '"' cs
  | '\'' :: cs => readQuoted? '\'' cs
  | cs => readUntil isLineEnd true cs

/-- A piece of text without the blanks around it. -/
def trimmed (cs : List Char) : String := String.ofList (Text.trimChars cs)

/-! ## Lines -/

/-- What was read so far: the entries of the table, and the section that is open with its own. -/
structure Progress where
  entries : List (String × Setting) := []
  openSection : Option (String × List (String × Setting)) := none

namespace Progress

/-- The entries with those of the open section. -/
def finish (p : Progress) : List (String × Setting) :=
  match p.openSection with
  | some (name, es) => p.entries ++ [(name, .table (Setting.lastOfEach es))]
  | none => p.entries

def addValue (p : Progress) (key value : String) : Progress :=
  match p.openSection with
  | some (name, es) => { p with openSection := some (name, es ++ [(key, .text value)]) }
  | none => { p with entries := p.entries ++ [(key, .text value)] }

/-- Reads everything.  `fresh` says that the next character is the first of its line. -/
def run : (budget : Nat) → (fresh : Bool) → Progress → List Char → Option Progress
  | 0, _, _, _ => none
  | budget + 1, fresh, p, cs =>
    let fresh := match (cs.takeWhile Text.isBlank).getLast? with
      | some c => c == '\n'
      | none => fresh
    match cs.dropWhile Text.isBlank with
    | [] => some p
    | c :: cs =>
      if c = ';' || c = '#' then
        if fresh then run budget true p ((cs.dropWhile (· != '\n')).drop 1) else none
      else if c = '[' then do
        let (name, rest) ← readUntil (· = ']') false cs
        run budget false ⟨p.finish, some (trimmed name, [])⟩ (rest.drop 1)
      else do
        let (key, rest) ← readUntil (fun c => c = '=' || c = ':') false (c :: cs)
        let key := trimmed key
        if key.isEmpty then none
        else
          let (value, rest) ← readValue? (rest.drop 1)
          run budget false (p.addValue key (trimmed value)) rest

end Progress

/-- The entries that a text gives. -/
def ofText? (s : String) : Option (List (String × Setting)) :=
  (Progress.run (s.length + 1) true {} s.toList).map fun p => Setting.lastOfEach p.finish

end MappingGraph.Ini
