import MappingGraph.Settings.Value

/-!
# The tokens of TOML

Keys, strings, numbers and dates, each read from the start of a list of characters.  The answer is
`none` when what stands there is not well formed; settings with any fault are refused as a whole, so
it does not matter where the fault is.
-/

set_option autoImplicit false

namespace MappingGraph.Toml

def isSpace (c : Char) : Bool := c = ' ' || c = '\t'

def skipSpace (cs : List Char) : List Char := cs.dropWhile isSpace

/-- The characters that may not stand in comments and strings. -/
def isForbidden (c : Char) : Bool := (c.toNat < 0x20 && c != '\t') || c.toNat = 0x7F

/-- The rest after a line break, if there is one. -/
def newline? : List Char → Option (List Char)
  | '\n' :: cs => some cs
  | '\r' :: '\n' :: cs => some cs
  | _ => none

/-- The rest after a comment, if there is one, up to the line break. -/
def skipComment? : List Char → Option (List Char)
  | '#' :: cs =>
    let rest := cs.dropWhile (!isForbidden ·)
    if rest.isEmpty || (newline? rest).isSome then some rest else none
  | cs => some cs

/-- The rest after what may end a line: blanks, a comment, and a line break or the end. -/
def endOfLine? (cs : List Char) : Option (List Char) := do
  let rest ← skipComment? (skipSpace cs)
  if rest.isEmpty then some [] else newline? rest

/-- The rest after blanks, comments and line breaks. -/
def skipLines : (budget : Nat) → List Char → Option (List Char)
  | 0, _ => none
  | budget + 1, cs => do
    let rest ← skipComment? (skipSpace cs)
    match newline? rest with
    | some rest => skipLines budget rest
    | none => some rest

/-! ## Strings -/

/-- The character that a letter after a backslash stands for. -/
def escapeOf? (c : Char) : Option Char :=
  if c = '"' || c = '\\' then some c
  else if c = 'b' then some '\x08'
  else if c = 't' then some '\t'
  else if c = 'n' then some '\n'
  else if c = 'f' then some '\x0c'
  else if c = 'r' then some '\r'
  else none

/-- Reads what follows a backslash. -/
def readEscape? : List Char → Option (Char × List Char)
  | 'u' :: cs =>
    if 4 ≤ cs.length then (Text.charOfHex? (cs.take 4)).map fun c => (c, cs.drop 4) else none
  | 'U' :: cs =>
    if 8 ≤ cs.length then (Text.charOfHex? (cs.take 8)).map fun c => (c, cs.drop 8) else none
  | c :: cs => (escapeOf? c).map fun e => (e, cs)
  | [] => none

/-- The rest of a string in quotation marks on one line. -/
def readBasic : (budget : Nat) → List Char → Option (List Char × List Char)
  | 0, _ => none
  | _ + 1, '"' :: cs => some ([], cs)
  | budget + 1, '\\' :: cs => do
    let (c, rest) ← readEscape? cs
    let (text, rest) ← readBasic budget rest
    return (c :: text, rest)
  | budget + 1, c :: cs => do
    if isForbidden c then none
    else
      let (text, rest) ← readBasic budget cs
      return (c :: text, rest)
  | _ + 1, [] => none

/-- The rest of a string in apostrophes on one line. -/
def readLiteral (cs : List Char) : Option (List Char × List Char) :=
  match cs.dropWhile fun c => c != '\'' && !isForbidden c with
  | '\'' :: rest => some (cs.takeWhile (· != '\''), rest)
  | _ => none

/-- The rest after blanks and line breaks. -/
def skipBlankLines : List Char → List Char
  | '\r' :: '\n' :: cs => skipBlankLines cs
  | c :: cs => if isSpace c || c = '\n' then skipBlankLines cs else c :: cs
  | [] => []

/-- The rest after a backslash at the end of a line and all blanks and line breaks behind it. -/
def lineContinuation? (cs : List Char) : Option (List Char) :=
  (newline? (skipSpace cs)).map skipBlankLines

/-- The rest of a string over several lines.  Up to two quotes may stand before the three that close
it.  In `basic` strings a backslash begins an escape. -/
def readMultiline (quote : Char) (basic : Bool) :
    (budget : Nat) → List Char → Option (List Char × List Char)
  | 0, _ => none
  | budget + 1, cs =>
    match cs with
    | [] => none
    | c :: rest =>
      if c = quote then
        let run := cs.takeWhile (· = quote)
        if 3 ≤ run.length then
          if run.length ≤ 5 then some (run.drop 3, cs.drop run.length) else none
        else do
          let (text, rest) ← readMultiline quote basic budget (cs.drop run.length)
          return (run ++ text, rest)
      else if basic && c = '\\' then
        match lineContinuation? rest with
        | some rest => readMultiline quote basic budget rest
        | none => do
          let (e, rest) ← readEscape? rest
          let (text, rest) ← readMultiline quote basic budget rest
          return (e :: text, rest)
      else
        match newline? cs with
        | some rest => do
          let (text, rest) ← readMultiline quote basic budget rest
          return ('\n' :: text, rest)
        | none =>
          if isForbidden c then none
          else do
            let (text, rest) ← readMultiline quote basic budget rest
            return (c :: text, rest)

/-- A line break right after the opening quotes does not count. -/
def dropNewline (cs : List Char) : List Char := (newline? cs).getD cs

/-- Reads a string of any of the four kinds. -/
def readString? (cs : List Char) : Option (String × List Char) :=
  let text (r : Option (List Char × List Char)) : Option (String × List Char) :=
    r.map fun (t, rest) => (String.ofList t, rest)
  match cs with
  | '"' :: '"' :: '"' :: rest => text (readMultiline '"' true (cs.length + 1) (dropNewline rest))
  | '\'' :: '\'' :: '\'' :: rest =>
    text (readMultiline '\'' false (cs.length + 1) (dropNewline rest))
  | '"' :: rest => text (readBasic (cs.length + 1) rest)
  | '\'' :: rest => text (readLiteral rest)
  | _ => none

/-! ## Keys -/

def isBareKey (c : Char) : Bool := c.isAlphanum || c = '-' || c = '_'

/-- Reads a key without dots. -/
def readSimpleKey? (cs : List Char) : Option (String × List Char) :=
  match cs with
  | '"' :: rest => (readBasic (cs.length + 1) rest).map fun (t, r) => (String.ofList t, r)
  | '\'' :: rest => (readLiteral rest).map fun (t, r) => (String.ofList t, r)
  | _ =>
    let name := cs.takeWhile isBareKey
    if name.isEmpty then none else some (String.ofList name, cs.dropWhile isBareKey)

/-- Reads a key of one or more parts with dots between them, and the blanks behind it. -/
def readKey? : (budget : Nat) → List Char → Option (List String × List Char)
  | 0, _ => none
  | budget + 1, cs => do
    let (name, rest) ← readSimpleKey? (skipSpace cs)
    match skipSpace rest with
    | '.' :: rest =>
      let (names, rest) ← readKey? budget rest
      return (name :: names, rest)
    | rest => return ([name], rest)

/-! ## Numbers -/

/-- Digits without the underscores between them; an underscore must stand between two digits. -/
def plainDigits? (isDigit : Char → Bool) : List Char → Option (List Char)
  | [] => none
  | [c] => if isDigit c then some [c] else none
  | c :: '_' :: cs => if isDigit c then (plainDigits? isDigit cs).map (c :: ·) else none
  | c :: cs => if isDigit c then (plainDigits? isDigit cs).map (c :: ·) else none

/-- Decimal digits without a leading zero. -/
def wholeDigits? (cs : List Char) : Option (List Char) := do
  match ← plainDigits? Char.isDigit cs with
  | '0' :: _ :: _ => none
  | digits => some digits

def signOf : List Char → Bool × List Char
  | '+' :: cs => (false, cs)
  | '-' :: cs => (true, cs)
  | cs => (false, cs)

/-- An integer of 64 bits with a sign. -/
def integerOf? (negative : Bool) (n : Nat) : Option Setting :=
  let i : Int := if negative then -(n : Int) else n
  if -Int.pow 2 63 ≤ i && i < Int.pow 2 63 then some (.integer i) else none

/-- The integer that a token denotes. -/
def integerToken? (token : List Char) : Option Setting :=
  match token with
  | '0' :: 'x' :: cs =>
    (plainDigits? Text.isHexDigit cs).bind fun ds =>
      integerOf? false (Text.radixValue 16 ds)
  | '0' :: 'o' :: cs =>
    (plainDigits? (fun c => '0' ≤ c && c ≤ '7') cs).bind fun ds =>
      integerOf? false (Text.radixValue 8 ds)
  | '0' :: 'b' :: cs =>
    (plainDigits? (fun c => c = '0' || c = '1') cs).bind fun ds =>
      integerOf? false (Text.radixValue 2 ds)
  | _ =>
    let (negative, cs) := signOf token
    (wholeDigits? cs).bind fun ds => integerOf? negative (Text.digitsValue ds)

/-- The exponent that a list denotes, without its letter. -/
def exponentOf? (cs : List Char) : Option Int := do
  let (negative, digits) := signOf cs
  let digits ← plainDigits? Char.isDigit digits
  let n := Text.digitsValue digits
  return if negative then -(n : Int) else n

/-- The number with a fraction or an exponent that a token denotes.  One that is beyond the largest
is refused, one that is beyond the least becomes infinite. -/
def realToken? (token : List Char) : Option Setting := do
  let (negative, cs) := signOf token
  if cs = "inf".toList then return .real (.infinite negative)
  if cs = "nan".toList then return .real .undefined
  let inWhole := fun c => c != '.' && c != 'e' && c != 'E'
  let whole ← wholeDigits? (cs.takeWhile inWhole)
  let rest := cs.dropWhile inWhole
  if rest.isEmpty then none
  let (frac, rest) ← match rest with
    | '.' :: ds => do
      let inFrac := fun c => c != 'e' && c != 'E'
      let frac ← plainDigits? Char.isDigit (ds.takeWhile inFrac)
      some (frac, ds.dropWhile inFrac)
    | ds => some ([], ds)
  let exponent ← match rest with
    | [] => some 0
    | _ :: ds => exponentOf? ds
  match Real.ofDecimal ⟨negative, Text.digitsValue (whole ++ frac), exponent - frac.length⟩ with
  | .infinite false => none
  | x => return .real x

/-! ## Dates and times -/

/-- The number that two digits denote, if it is in a range. -/
def twoDigits? (low high : Nat) (a b : Char) : Option Nat := do
  let n ← Text.digits? [a, b]
  if low ≤ n && n ≤ high then some n else none

def isLeapYear (y : Nat) : Bool := (y % 4 = 0 && y % 100 ≠ 0) || y % 400 = 0

def daysOf (year month : Nat) : Nat :=
  if month = 2 then (if isLeapYear year then 29 else 28)
  else if month ∈ [4, 6, 9, 11] then 30
  else 31

/-- The rest after a date. -/
def skipDate? : List Char → Option (List Char)
  | a :: b :: c :: d :: '-' :: e :: f :: '-' :: g :: h :: rest => do
    let year ← Text.digits? [a, b, c, d]
    let month ← twoDigits? 1 12 e f
    let _ ← twoDigits? 1 (daysOf year month) g h
    return rest
  | _ => none

/-- The rest after a time of day. -/
def skipTime? : List Char → Option (List Char)
  | a :: b :: ':' :: c :: d :: ':' :: e :: f :: rest => do
    let _ ← twoDigits? 0 23 a b
    let _ ← twoDigits? 0 59 c d
    let _ ← twoDigits? 0 60 e f
    match rest with
    | '.' :: ds => if (ds.takeWhile Char.isDigit).isEmpty then none else ds.dropWhile Char.isDigit
    | rest => return rest
  | _ => none

/-- Whether a list is empty or an offset from universal time. -/
def isOffset : List Char → Bool
  | [] | ['Z'] | ['z'] => true
  | sign :: a :: b :: ':' :: c :: d :: [] =>
    (sign = '+' || sign = '-') && (twoDigits? 0 23 a b).isSome && (twoDigits? 0 59 c d).isSome
  | _ => false

/-- Whether a token is a date, a time, or both. -/
def isDateTime (token : List Char) : Bool :=
  match skipDate? token with
  | some [] => true
  | some (c :: rest) =>
    (c = 'T' || c = 't' || c = ' ') &&
      match skipTime? rest with
      | some rest => isOffset rest
      | none => false
  | none => skipTime? token = some []

/-- The characters of numbers, dates and words. -/
def isTokenChar (c : Char) : Bool :=
  c.isAlphanum || c = '_' || c = '+' || c = '-' || c = '.' || c = ':'

/-- Splits a token off the list; a blank may stand between a date and a time. -/
def splitToken (cs : List Char) : List Char × List Char :=
  let token := cs.takeWhile isTokenChar
  match cs.dropWhile isTokenChar with
  | ' ' :: a :: b :: ':' :: rest =>
    if skipDate? token = some [] && a.isDigit && b.isDigit then
      let more := a :: b :: ':' :: rest
      (token ++ ' ' :: more.takeWhile isTokenChar, more.dropWhile isTokenChar)
    else (token, ' ' :: a :: b :: ':' :: rest)
  | rest => (token, rest)

/-- The value that a token denotes. -/
def tokenValue? (token : List Char) : Option Setting :=
  if token = "true".toList then some (.bool true)
  else if token = "false".toList then some (.bool false)
  else
    (integerToken? token <|> realToken? token) <|>
      if isDateTime token then some (.text (String.ofList token)) else none

end MappingGraph.Toml
