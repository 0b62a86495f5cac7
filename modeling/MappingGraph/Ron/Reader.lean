import MappingGraph.Ron.Lexer

/-!
# Reading RON

A RON text is one value: a scalar, a list in brackets, a map in braces, or something in parentheses,
with or without a name before it.  Parentheses hold fields, `(a: 1)`, or items, `(1, 2)`; a name
alone has no value.  The names of fields and the strings that are keys of a map become the keys of a
table.

Nesting is limited.  A list, a map or a pair of parentheses takes two levels, one for itself and one
for what is inside, and `Some(…)` takes one.
-/

set_option autoImplicit false

namespace MappingGraph.Ron

/-- How deep values may be nested. -/
def maxLevel : Nat := 128

/-- Reads items up to the character that closes the list.  Between two items stands a comma, and one
may follow the last. -/
def readItems (item : List Char → Option (Setting × List Char)) (closing : Char) :
    (budget : Nat) → List Char → Option (List Setting × List Char)
  | 0, _ => none
  | budget + 1, cs => do
    let cs ← skip? cs
    match cs with
    | [] => none
    | c :: rest =>
      if c = closing then return ([], rest)
      else
        let (x, rest) ← item cs
        match ← skipComma? rest with
        | (true, rest) =>
          let (xs, rest) ← readItems item closing budget rest
          return (x :: xs, rest)
        | (false, c :: rest) => if c = closing then return ([x], rest) else none
        | (false, []) => none

/-- Reads a key, a colon and a value. -/
def readPair (key : List Char → Option (String × List Char))
    (value : List Char → Option (Setting × List Char)) (cs : List Char) :
    Option ((String × Setting) × List Char) := do
  let (name, rest) ← key cs
  match ← skip? rest with
  | ':' :: rest =>
    let (x, rest) ← value (← skip? rest)
    return ((name, x), rest)
  | _ => none

/-- Reads pairs up to the character that closes the map. -/
def readPairs (pair : List Char → Option ((String × Setting) × List Char)) (closing : Char) :
    (budget : Nat) → List Char → Option (List (String × Setting) × List Char)
  | 0, _ => none
  | budget + 1, cs => do
    let cs ← skip? cs
    match cs with
    | [] => none
    | c :: rest =>
      if c = closing then return ([], rest)
      else
        let (x, rest) ← pair cs
        match ← skipComma? rest with
        | (true, rest) =>
          let (xs, rest) ← readPairs pair closing budget rest
          return (x :: xs, rest)
        | (false, c :: rest) => if c = closing then return ([x], rest) else none
        | (false, []) => none

/-- Whether fields, each with a name and a colon, stand in parentheses. -/
def hasFields? (cs : List Char) : Option Bool := do
  let cs ← skip? cs
  match readName? cs with
  | none => return false
  | some (_, rest) =>
    match ← skip? rest with
    | [] => none
    | c :: _ => return c = ':'

/-- The words that stand for a value. -/
def words : List (String × Setting) :=
  [("true", .bool true), ("false", .bool false), ("None", .none),
    ("inf", .real (.infinite false)), ("-inf", .real (.infinite true)), ("NaN", .real .undefined)]

/-- Reads what a word stands for; `()` is a word as well. -/
def readWord? (cs : List Char) : Option (Setting × List Char) :=
  match cs with
  | '(' :: ')' :: rest => some (.none, rest)
  | _ => words.findSome? fun (name, x) => (word? name cs).map fun rest => (x, rest)

/-- Reads a number, a string or a character. -/
def readScalar? (cs : List Char) : Option (Setting × List Char) :=
  match cs with
  | c :: _ =>
    if c.isDigit || c = '+' || c = '-' || c = '.' then readNumber? cs
    else (readText? cs).map fun (s, rest) => (.text s, rest)
  | [] => none

/-- Reads the items or pairs of a value that begins with a bracket; `item` reads what is inside. -/
def readCollection (item : List Char → Option (Setting × List Char)) (cs : List Char) :
    Option (Setting × List Char) := do
  match cs with
  | '[' :: rest =>
    let (xs, rest) ← readItems item ']' cs.length rest
    return (.list xs, rest)
  | '\x7b' :: rest =>
    let (es, rest) ← readPairs (readPair readText? item) '\x7d' cs.length rest
    return (.table (Setting.lastOfEach es), rest)
  | '(' :: rest =>
    if ← hasFields? rest then
      let (es, rest) ← readPairs (readPair readName? item) ')' cs.length rest
      return (.table (Setting.lastOfEach es), rest)
    else
      let (xs, rest) ← readItems item ')' cs.length rest
      return (.list xs, rest)
  | _ => readScalar? cs

/-- Reads what follows a name: something in parentheses, or nothing. -/
def readAfterName (collection : List Char → Option (Setting × List Char)) (cs : List Char) :
    Option (Setting × List Char) := do
  match ← skip? cs with
  | '(' :: rest => collection ('(' :: rest)
  | rest => return (.none, rest)

/-- Reads what follows `Some`.  The parentheses may be left out if the text says so at its start. -/
def readSome (implicit : Bool) (value : List Char → Option (Setting × List Char))
    (cs : List Char) : Option (Setting × List Char) := do
  match ← skip? cs with
  | '(' :: rest =>
    let (x, rest) ← value (← skip? rest)
    match ← skipComma? rest with
    | (_, ')' :: rest) => return (x, rest)
    | _ => none
  | rest => if implicit then value rest else none

/-- Reads a value within so many levels. -/
def readValue (implicit : Bool) : (levels : Nat) → List Char → Option (Setting × List Char)
  | levels, cs =>
    match readWord? cs, word? "Some" cs, readName? cs with
    | some found, _, _ => some found
    | none, some rest, _ =>
      match levels with
      | 0 => readSome implicit (fun _ => none) rest
      | levels + 1 => readSome implicit (readValue implicit levels) rest
    | none, none, name =>
      let collection := match levels with
        | 0 => readScalar?
        | 1 => readCollection fun _ => none
        | levels + 2 => readCollection (readValue implicit levels)
      match name with
      | some (_, rest) => readAfterName collection rest
      | none => collection cs

/-! ## The start of a text -/

/-- Passes over tokens and the blanks after each of them. -/
def skipTokens? : List Char → List Char → Option (List Char)
  | [], cs => some cs
  | t :: ts, c :: cs => if c = t then (skip? cs).bind (skipTokens? ts) else none
  | _ :: _, [] => none

/-- Passes over a word and the blanks after it. -/
def skipWord? (word : String) (cs : List Char) : Option (List Char) :=
  (List.isPrefixOf? word.toList cs).bind skip?

/-- The extensions that a text may ask for. -/
def extensions : List String := ["unwrap_newtypes", "implicit_some", "unwrap_variant_newtypes"]

/-- Reads the names of extensions up to the one that no other follows. -/
def readExtensions : (budget : Nat) → List Char → Option (List String × List Char)
  | 0, _ => none
  | budget + 1, cs => do
    let (name, rest) ← readName? cs
    if name ∉ extensions then none
    else
      let (comma, rest) ← skipComma? rest
      if rest.head?.any isNameChar then
        if comma then
          let (names, rest) ← readExtensions budget rest
          return (name :: names, rest)
        else none
      else return ([name], rest)

/-- Reads the attributes `#![enable(…)]` at the start of a text. -/
def readAttributes : (budget : Nat) → List Char → Option (List String × List Char)
  | 0, _ => none
  | budget + 1, cs =>
    match cs with
    | '#' :: _ => do
      let rest ← skipTokens? ['#', '!', '['] cs
      let rest ← skipTokens? ['('] (← skipWord? "enable" rest)
      let (names, rest) ← readExtensions (rest.length + 1) rest
      let (more, rest) ← readAttributes budget (← skipTokens? [')', ']'] rest)
      return (names ++ more, rest)
    | cs => some ([], cs)

/-- The entries that a text gives, whose value must be a table. -/
def ofText? (s : String) : Option (List (String × Setting)) := do
  let cs ← skip? s.toList
  let (extensions, rest) ← readAttributes (cs.length + 1) cs
  let (value, rest) ← readValue ("implicit_some" ∈ extensions) maxLevel rest
  match value, ← skip? rest with
  | .table es, [] => some es
  | _, _ => none

end MappingGraph.Ron
