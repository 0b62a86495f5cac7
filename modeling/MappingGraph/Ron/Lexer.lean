import MappingGraph.Json.Basic
import MappingGraph.Settings.Value

/-!
# The tokens of RON

Blanks and comments, names, numbers, strings and characters, each read from the start of a list of
characters.  The answer is `none` when what stands there is not well formed.

A number is an integer if it can be one.  Digits of an integer may be parted by underscores and,
with a prefix, be of base 2, 8 or 16; what does not fit 64 bits is read as a number with a fraction,
where underscores are refused.
-/

set_option autoImplicit false

namespace MappingGraph.Ron

/-! ## Blanks and comments -/

def isSpace (c : Char) : Bool := c = ' ' || c = '\t' || c = '\n' || c = '\r'

/-- The rest after a comment between `/*` and `*/`, inside of which others may lie. -/
def skipBlock? : (level : Nat) → List Char → Option (List Char)
  | 0, cs => some cs
  | _ + 1, [] => none
  | level + 1, '/' :: '*' :: cs => skipBlock? (level + 2) cs
  | level + 1, '*' :: '/' :: cs => skipBlock? level cs
  | level + 1, _ :: cs => skipBlock? (level + 1) cs

/-- The rest after blanks and comments.  A slash begins a comment or is a fault. -/
def skipSpace? : (budget : Nat) → List Char → Option (List Char)
  | 0, _ => none
  | budget + 1, cs =>
    match cs.dropWhile isSpace with
    | '/' :: '/' :: cs => skipSpace? budget (cs.dropWhile (· != '\n'))
    | '/' :: '*' :: cs => (skipBlock? 1 cs).bind (skipSpace? budget)
    | '/' :: _ => none
    | cs => some cs

/-- The rest after blanks and comments.  Only a slash makes it worth counting what is left. -/
def skip? (cs : List Char) : Option (List Char) :=
  match cs.dropWhile isSpace with
  | '/' :: rest => skipSpace? (rest.length + 1) ('/' :: rest)
  | rest => some rest

/-- Passes over a comma, if there is one, and the blanks around it. -/
def skipComma? (cs : List Char) : Option (Bool × List Char) := do
  match ← skip? cs with
  | ',' :: rest => return (true, ← skip? rest)
  | rest => return (false, rest)

/-! ## Names -/

def isNameStart (c : Char) : Bool := c.isAlpha || c = '_'

def isNameChar (c : Char) : Bool := c.isAlphanum || c = '_'

/-- The characters of a name that is written with `r#`. -/
def isRawNameChar (c : Char) : Bool := isNameChar c || c = '.' || c = '+' || c = '-'

/-- The rest after a word, if the word stands there and the name does not go on. -/
def word? (word : String) (cs : List Char) : Option (List Char) := do
  let rest ← List.isPrefixOf? word.toList cs
  match rest with
  | c :: _ => if isNameChar c then none else some rest
  | [] => some rest

/-- Reads a name.  One that goes on with a character of a raw name is refused, and `r` before a
quotation mark begins a string. -/
def readName? (cs : List Char) : Option (String × List Char) :=
  match cs with
  | 'r' :: '#' :: c :: rest =>
    if isRawNameChar c then
      let cs := c :: rest
      some (String.ofList (cs.takeWhile isRawNameChar), cs.dropWhile isRawNameChar)
    else none
  | ['r'] | 'r' :: '"' :: _ | 'r' :: '#' :: _ => none
  | c :: _ =>
    let name := cs.takeWhile isNameChar
    if isNameStart c && name.length = (cs.takeWhile isRawNameChar).length then
      some (String.ofList name, cs.dropWhile isNameChar)
    else none
  | [] => none

/-! ## Numbers -/

def isFloatChar (c : Char) : Bool :=
  c.isDigit || c = 'e' || c = 'E' || c = '.' || c = '+' || c = '-' || c = '_'

def isIntegerChar (c : Char) : Bool := Text.isHexDigit c || c = '_'

/-- The base that a prefix names, and the rest after it. -/
def baseOf : List Char → Nat × List Char
  | '0' :: 'x' :: cs => (16, cs)
  | '0' :: 'b' :: cs => (2, cs)
  | '0' :: 'o' :: cs => (8, cs)
  | cs => (10, cs)

/-- Reads a natural number. -/
def readNatural? (cs : List Char) : Option (Nat × List Char) :=
  let (base, cs) := baseOf cs
  match cs.takeWhile isIntegerChar with
  | [] | '_' :: _ => none
  | token =>
    let digits := token.filter (· != '_')
    if digits.all fun c => (Text.hexValue? c).any (· < base) then
      some (Text.radixValue base digits, cs.dropWhile isIntegerChar)
    else none

/-- Reads an integer: one with a sign fits 63 bits beside it, one without 64 bits. -/
def readInteger? (cs : List Char) : Option (Int × List Char) := do
  let (low, high, negative, cs) : Int × Int × Bool × List Char := match cs with
    | '-' :: cs => (Number.minInteger, Number.maxSigned, true, cs)
    | '+' :: cs => (Number.minInteger, Number.maxSigned, false, cs)
    | cs => (0, Number.maxInteger, false, cs)
  let (n, rest) ← readNatural? cs
  let i : Int := if negative then -n else n
  if low ≤ i && i ≤ high then some (i, rest) else none

/-- The rest of a word for a number that is not finite, with what it stands for. -/
def readSpecial? (cs : List Char) : Option (Real × List Char) :=
  [("inf", Real.infinite false), ("+inf", .infinite false), ("-inf", .infinite true),
    ("NaN", .undefined), ("+NaN", .undefined), ("-NaN", .undefined)].findSome? fun (name, x) =>
      (word? name cs).map fun rest => (x, rest)

/-- Reads a number with a fraction or an exponent. -/
def readReal? (cs : List Char) : Option (Real × List Char) :=
  match readSpecial? cs with
  | some found => some found
  | none => do
    let d ← Decimal.ofText? (String.ofList (cs.takeWhile isFloatChar))
    return (.ofDecimal d, cs.dropWhile isFloatChar)

/-- Whether more characters of a fraction than of an integer follow a sign. -/
def looksReal (cs : List Char) : Bool :=
  let digits := match cs with
    | '+' :: cs | '-' :: cs => cs
    | cs => cs
  (digits.takeWhile isIntegerChar).length < (digits.takeWhile isFloatChar).length

/-- Reads a number.  An integer beyond 63 bits loses its last digits. -/
def readNumber? (cs : List Char) : Option (Setting × List Char) :=
  match if looksReal cs then none else readInteger? cs with
  | some (i, rest) =>
    if i ≤ Number.maxSigned then some (.integer i, rest)
    else some (.real (.ofDecimal ⟨false, i.toNat, 0⟩), rest)
  | none => (readReal? cs).map fun (x, rest) => (.real x, rest)

/-! ## Strings and characters -/

/-- The character that a letter after a backslash stands for. -/
def escapeOf? (c : Char) : Option Char :=
  if c = '\'' || c = '"' || c = '\\' then some c
  else if c = 'n' then some '\n'
  else if c = 'r' then some '\r'
  else if c = 't' then some '\t'
  else if c = '0' then some '\x00'
  else none

/-- Reads what follows a backslash. -/
def readEscape? : List Char → Option (Char × List Char)
  | 'x' :: a :: b :: cs => (Text.charOfHex? [a, b]).map fun c => (c, cs)
  | 'u' :: '\x7b' :: cs =>
    let digits := (cs.take 6).takeWhile (· != '\x7d')
    match digits.isEmpty, cs.drop digits.length with
    | false, '\x7d' :: rest => (Text.charOfHex? digits).map fun c => (c, rest)
    | _, _ => none
  | c :: cs => (escapeOf? c).map fun e => (e, cs)
  | [] => none

/-- Reads a string after its opening quotation mark. -/
def readEscaped : (budget : Nat) → List Char → Option (List Char × List Char)
  | 0, _ => none
  | _ + 1, [] => none
  | _ + 1, '"' :: cs => some ([], cs)
  | budget + 1, '\\' :: cs => do
    let (c, rest) ← readEscape? cs
    let (text, rest) ← readEscaped budget rest
    return (c :: text, rest)
  | budget + 1, c :: cs => do
    let (text, rest) ← readEscaped budget cs
    return (c :: text, rest)

/-- Reads up to a quotation mark that is followed by so many hash signs. -/
def readRaw (ending : List Char) : List Char → Option (List Char × List Char)
  | [] => none
  | c :: cs =>
    match List.isPrefixOf? ending (c :: cs) with
    | some rest => some ([], rest)
    | none => (readRaw ending cs).map fun (text, rest) => (c :: text, rest)

/-- Reads a string, or a character as a string of its own. -/
def readText? : List Char → Option (String × List Char)
  | '"' :: cs => (readEscaped (cs.length + 1) cs).map fun (t, rest) => (String.ofList t, rest)
  | 'r' :: cs =>
    let hashes := cs.takeWhile (· = '#')
    match cs.drop hashes.length with
    | '"' :: cs => (readRaw ('"' :: hashes) cs).map fun (t, rest) => (String.ofList t, rest)
    | _ => none
  | '\'' :: '\\' :: cs => do
    match ← readEscape? cs with
    | (c, '\'' :: rest) => return (String.singleton c, rest)
    | _ => none
  | '\'' :: c :: '\'' :: rest => if c = '\'' then none else some (String.singleton c, rest)
  | _ => none

end MappingGraph.Ron
