import MappingGraph.Json.Basic
import MappingGraph.Settings.Value
import MappingGraph.Text.Letter

/-!
# Reading JSON5

JSON5 is JSON as it may be written by hand: keys may be names, strings may stand in apostrophes and
go on over the end of a line, a comma may follow the last item, there are comments, and numbers have
more forms.  A number without a point and an exponent is an integer of 64 bits; in base 16 it has
no sign and at most 32 bits.
-/

set_option autoImplicit false

namespace MappingGraph.Json5

/-! ## Blanks and comments -/

def isLineEnd (c : Char) : Bool := c = '\n' || c = '\r' || c = '\u2028' || c = '\u2029'

/-- The characters that may stand between tokens: line ends, tabs, the byte order mark and the
Unicode category `Zs`. -/
def isSpace (c : Char) : Bool :=
  let n := c.toNat
  isLineEnd c || n = 0x09 || n = 0x0B || n = 0x0C || n = 0x20 || n = 0xA0 || n = 0xFEFF ||
    n = 0x1680 || (0x2000 ≤ n && n ≤ 0x200A) || n = 0x202F || n = 0x205F || n = 0x3000

/-- The rest after the end of a comment. -/
def skipBlock? : List Char → Option (List Char)
  | '*' :: '/' :: cs => some cs
  | _ :: cs => skipBlock? cs
  | [] => none

/-- The rest after blanks and comments. -/
def skipSpace? : (budget : Nat) → List Char → Option (List Char)
  | 0, _ => none
  | budget + 1, cs =>
    match cs.dropWhile isSpace with
    | '/' :: '/' :: cs => skipSpace? budget (cs.dropWhile (!isLineEnd ·))
    | '/' :: '*' :: cs => (skipBlock? cs).bind (skipSpace? budget)
    | cs => some cs

/-- The rest after blanks and comments.  Only a slash makes it worth counting what is left. -/
def skip? (cs : List Char) : Option (List Char) :=
  match cs.dropWhile isSpace with
  | '/' :: rest => skipSpace? (rest.length + 1) ('/' :: rest)
  | rest => some rest

/-! ## Strings and names -/

/-- A piece of a string: a character, or half of a surrogate pair by its number. -/
abbrev Piece := Char ⊕ Nat

/-- The character of a surrogate pair. -/
def charOfPair? (high low : Nat) : Option Char :=
  if 0xD800 ≤ high && high ≤ 0xDBFF && 0xDC00 ≤ low && low ≤ 0xDFFF then
    Text.charOfNumber? (0x10000 + (high - 0xD800) * 0x400 + (low - 0xDC00))
  else none

/-- The text that pieces make, if every half of a pair has its other half. -/
def joinPieces? : List Piece → Option (List Char)
  | [] => some []
  | .inl c :: ps => (joinPieces? ps).map (c :: ·)
  | .inr high :: .inr low :: ps => do return (← charOfPair? high low) :: (← joinPieces? ps)
  | .inr _ :: _ => none

/-- Reads four hexadecimal digits. -/
def readUnit? : List Char → Option (Piece × List Char)
  | a :: b :: c :: d :: cs => do
    let n ← Text.hexNumber? [a, b, c, d]
    return (match Text.charOfNumber? n with | some c => .inl c | none => .inr n, cs)
  | _ => none

/-- The character that a letter after a backslash stands for. -/
def escapeOf (c : Char) : Char :=
  if c = 'b' then '\x08'
  else if c = 'f' then '\x0c'
  else if c = 'n' then '\n'
  else if c = 'r' then '\r'
  else if c = 't' then '\t'
  else if c = 'v' then '\x0b'
  else c

/-- Reads what follows a backslash in a string.  At the end of a line it stands for nothing. -/
def readEscape? : List Char → Option (Option Piece × List Char)
  | 'x' :: a :: b :: cs => (Text.charOfHex? [a, b]).map fun c => (some (.inl c), cs)
  | 'u' :: cs => (readUnit? cs).map fun (p, rest) => (some p, rest)
  | '\r' :: '\n' :: cs => some (none, cs)
  | '0' :: cs => if cs.head?.any Char.isDigit then none else some (some (.inl '\x00'), cs)
  | c :: cs =>
    if isLineEnd c then some (none, cs)
    else if c = 'x' || c.isDigit then none
    else some (some (.inl (escapeOf c)), cs)
  | [] => none

/-- Reads the pieces of a string up to its closing quotation mark. -/
def readPieces (quote : Char) : (budget : Nat) → List Char → Option (List Piece × List Char)
  | 0, _ => none
  | _ + 1, [] => none
  | budget + 1, '\\' :: cs => do
    let (piece, rest) ← readEscape? cs
    let (pieces, rest) ← readPieces quote budget rest
    return (piece.toList ++ pieces, rest)
  | budget + 1, c :: cs => do
    if c = quote then some ([], cs)
    else if c = '\n' || c = '\r' then none
    else
      let (pieces, rest) ← readPieces quote budget cs
      return (.inl c :: pieces, rest)

/-- Reads a string. -/
def readString? (cs : List Char) : Option (String × List Char) := do
  match cs with
  | c :: rest =>
    if c = '"' || c = '\'' then
      let (pieces, rest) ← readPieces c cs.length rest
      return (String.ofList (← joinPieces? pieces), rest)
    else none
  | [] => none

def isNameStart (c : Char) : Bool := c = '$' || c = '_' || Text.isLetter c

def isNameChar (c : Char) : Bool :=
  isNameStart c || Text.isNameMark c || c = '\u200C' || c = '\u200D'

/-- Reads the pieces of a name. -/
def readNamePieces (isFit : Char → Bool) : (budget : Nat) → List Char →
    Option (List Piece × List Char)
  | 0, cs => some ([], cs)
  | budget + 1, '\\' :: 'u' :: cs => do
    let (piece, rest) ← readUnit? cs
    let (pieces, rest) ← readNamePieces isNameChar budget rest
    return (piece :: pieces, rest)
  | budget + 1, c :: cs => do
    if isFit c then
      let (pieces, rest) ← readNamePieces isNameChar budget cs
      return (.inl c :: pieces, rest)
    else return ([], c :: cs)
  | _ + 1, [] => some ([], [])

/-- Reads a name. -/
def readName? (cs : List Char) : Option (String × List Char) := do
  let (pieces, rest) ← readNamePieces isNameStart cs.length cs
  if pieces.isEmpty then none else return (String.ofList (← joinPieces? pieces), rest)

/-- Reads the key of a member. -/
def readKey? (cs : List Char) : Option (String × List Char) :=
  match cs with
  | '"' :: _ | '\'' :: _ => readString? cs
  | _ => readName? cs

/-! ## Numbers -/

/-- Reads a number in base 16 after its prefix. -/
def readHex? (cs : List Char) : Option (Setting × List Char) :=
  let digits := cs.takeWhile Text.isHexDigit
  let n := Text.radixValue 16 digits
  if digits.isEmpty || Nat.pow 2 32 ≤ n then none
  else some (.integer n, cs.dropWhile Text.isHexDigit)

/-- Splits the exponent off a list, with its letter, if there is one with digits. -/
def splitExponent (cs : List Char) : List Char × List Char :=
  match cs with
  | c :: rest =>
    if c = 'e' || c = 'E' then
      let (sign, rest) := match rest with
        | '+' :: ds => (['+'], ds)
        | '-' :: ds => (['-'], ds)
        | ds => ([], ds)
      let digits := rest.takeWhile Char.isDigit
      if digits.isEmpty then ([], cs) else (c :: sign ++ digits, rest.dropWhile Char.isDigit)
    else ([], cs)
  | [] => ([], [])

/-- Splits the digits before the point off a list.  Only zero itself begins with a zero. -/
def splitWhole (cs : List Char) : List Char × List Char :=
  match cs with
  | '0' :: rest => (['0'], rest)
  | _ => (cs.takeWhile Char.isDigit, cs.dropWhile Char.isDigit)

/-- The finite number that a token denotes. -/
def realOf? (token : List Char) : Option Setting :=
  (Binary64.ofText? (String.ofList token)).map fun x => .real (.finite x)

/-- Reads a decimal number; `sign` are the characters before it. -/
def readDecimal? (sign cs : List Char) : Option (Setting × List Char) := do
  let (whole, rest) := splitWhole cs
  let (point, rest) := match rest with
    | '.' :: ds =>
      let frac := ds.takeWhile Char.isDigit
      if whole.isEmpty && frac.isEmpty then ([], rest)
      else ('.' :: frac, ds.dropWhile Char.isDigit)
    | _ => ([], rest)
  let (exponent, rest) := splitExponent rest
  if whole.isEmpty && point.isEmpty then none
  else if point.isEmpty && exponent.isEmpty then
    let i ← Text.integerWithin? Number.minInteger Number.maxSigned (String.ofList (sign ++ whole))
    return (.integer i, rest)
  else return (← realOf? (sign ++ whole ++ point ++ exponent), rest)

/-- Reads a number.  The words for numbers that are not finite may follow a minus sign only. -/
def readNumber? (cs : List Char) : Option (Setting × List Char) :=
  let (sign, rest) := match cs with
    | '-' :: cs => (['-'], cs)
    | '+' :: cs => (['+'], cs)
    | cs => ([], cs)
  match List.isPrefixOf? "Infinity".toList rest, List.isPrefixOf? "NaN".toList rest, rest with
  | some rest, _, _ =>
    if sign = ['+'] then none else some (.real (.infinite (sign = ['-'])), rest)
  | _, some rest, _ => if sign = ['+'] then none else some (.real .undefined, rest)
  | _, _, '0' :: x :: ds =>
    if x = 'x' || x = 'X' then (if sign.isEmpty then readHex? ds else none)
    else readDecimal? sign rest
  | _, _, _ => readDecimal? sign rest

/-! ## Values -/

/-- The words that stand for a value. -/
def words : List (String × Setting) :=
  [("null", .none), ("true", .bool true), ("false", .bool false)]

/-- Reads a value that holds no others. -/
def readScalar? (cs : List Char) : Option (Setting × List Char) :=
  let word := words.findSome? fun (name, x) =>
    (List.isPrefixOf? name.toList cs).map fun rest => (x, rest)
  match word, cs with
  | some found, _ => some found
  | none, '"' :: _ | none, '\'' :: _ => (readString? cs).map fun (s, rest) => (.text s, rest)
  | none, _ => readNumber? cs

/-- Reads entries and the commas between them up to the character that closes the list. -/
def readEntries {α : Type} (entry : List Char → Option (α × List Char)) (closing : Char) :
    (budget : Nat) → List Char → Option (List α × List Char)
  | 0, _ => none
  | budget + 1, cs => do
    let cs ← skip? cs
    match cs with
    | [] => none
    | c :: rest =>
      if c = closing then return ([], rest)
      else
        let (x, rest) ← entry cs
        match ← skip? rest with
        | ',' :: rest =>
          let (xs, rest) ← readEntries entry closing budget rest
          return (x :: xs, rest)
        | c :: rest => if c = closing then return ([x], rest) else none
        | [] => none

/-- Reads a key, a colon and a value. -/
def readMember (value : List Char → Option (Setting × List Char)) (cs : List Char) :
    Option ((String × Setting) × List Char) := do
  let (key, rest) ← readKey? cs
  match ← skip? rest with
  | ':' :: rest =>
    let (x, rest) ← value (← skip? rest)
    return ((key, x), rest)
  | _ => none

/-- Reads a value.  Every level of nesting and every entry takes a character, so that the number of
characters is budget enough for both. -/
def readValue : (budget : Nat) → List Char → Option (Setting × List Char)
  | 0, _ => none
  | budget + 1, cs => do
    match cs with
    | '[' :: rest =>
      let (xs, rest) ← readEntries (readValue budget) ']' budget rest
      return (.list xs, rest)
    | '\x7b' :: rest =>
      let (es, rest) ← readEntries (readMember (readValue budget)) '\x7d' budget rest
      return (.table (Setting.lastOfEach es), rest)
    | _ => readScalar? cs

/-- The entries that a text gives, whose value must be an object. -/
def ofText? (s : String) : Option (List (String × Setting)) := do
  let cs ← skip? s.toList
  match ← readValue (cs.length + 1) cs with
  | (.table es, rest) => if (← skip? rest).isEmpty then some es else none
  | _ => none

end MappingGraph.Json5
