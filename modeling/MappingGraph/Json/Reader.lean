import MappingGraph.Json.Draft

/-!
# Reading JSON text

`Draft.ofText` turns a text into a draft.  It never fails: what is wrong with the text is recorded
in the draft where it was found.  Numbers, strings and the values around them each have a function
of their own.

A number without fraction and exponent is kept as an integer if it fits 64 bits; `-0` is not an
integer, since the sign would be lost.  Any other number is fractional.  Its digits are taken for an
integer and a power of ten, which are put together in floating-point arithmetic: what is read is
near to what is written, but not always the nearest number.
-/

set_option autoImplicit false

namespace MappingGraph.Draft

/-- The four characters that may stand between tokens. -/
def isSpace (c : Char) : Bool := c = ' ' || c = '\n' || c = '\t' || c = '\r'

def skipSpace (cs : List Char) : List Char := cs.dropWhile isSpace

/-! ## Numbers -/

/-- Adds digits to an integer as long as it fits 64 bits; the digits left over come second. -/
def addDigits (n : Nat) : List Char → Nat × List Char
  | [] => (n, [])
  | c :: cs =>
    let longer := 10 * n + Text.digitValue c
    if longer ≤ Number.maxInteger then addDigits longer cs else (n, c :: cs)

/-- The largest exponent that is told apart from larger ones. -/
def maxExponent : Nat := Nat.pow 2 31 - 1

/-- The size of a fractional number; `none` if it is beyond the largest.  Digits that do not fit the
integer any more are not looked at: before the point they count as zeros. -/
def fractional? (whole frac : List Char) (exp : Int) : Option Binary64 :=
  let (n, unread) := addDigits 0 whole
  let (n, dropped) := addDigits n frac
  if exp.natAbs ≤ maxExponent then
    Binary64.scaled? n (exp + unread.length - (frac.length - dropped.length : Nat))
  else if n = 0 || exp < 0 then some (.zero false)
  else none

/-- The value of a complete number: its sign, its digits, those after the point, its exponent. -/
def numberOf (negative : Bool) (whole frac : List Char) (exp : Option Int) : Draft :=
  let digits := Text.digitsValue (whole ++ frac)
  let integer : Int := if negative then -digits else digits
  let isInteger := frac.isEmpty && exp.isNone && !(negative && digits = 0) &&
    Number.minInteger ≤ integer && integer ≤ Number.maxInteger
  if isInteger then number (.integer integer)
  else
    match fractional? whole frac (exp.getD 0) with
    | some x => number (.fractional { x with negative })
    | none => badToken ⟨.numberOutOfRange, none⟩

/-- A number that stops before `rest` although a digit is missing.  The end of the text is told
apart only where the number is wanted. -/
def brokenNumber (rest : List Char) : Draft :=
  badToken ⟨if rest.isEmpty then .endInValue else .invalidNumber, some .invalidNumber⟩

/-- Reads the exponent, if there is one, and finishes the number. -/
def readExponent (negative : Bool) (whole frac : List Char) : List Char → Draft × List Char
  | c :: cs =>
    if c = 'e' || c = 'E' then
      let (sign, cs) : Int × List Char := match cs with
        | '+' :: ds => (1, ds)
        | '-' :: ds => (-1, ds)
        | ds => (1, ds)
      let digits := cs.takeWhile Char.isDigit
      let rest := cs.dropWhile Char.isDigit
      if digits.isEmpty then (brokenNumber rest, rest)
      else (numberOf negative whole frac (some (sign * Text.digitsValue digits)), rest)
    else (numberOf negative whole frac none, c :: cs)
  | [] => (numberOf negative whole frac none, [])

/-- Reads what follows the digits before the point. -/
def readFraction (negative : Bool) (whole : List Char) : List Char → Draft × List Char
  | '.' :: cs =>
    let digits := cs.takeWhile Char.isDigit
    let rest := cs.dropWhile Char.isDigit
    if digits.isEmpty then (brokenNumber rest, rest)
    else readExponent negative whole digits rest
  | cs => readExponent negative whole [] cs

/-- Reads a number after its sign.  Only the number zero begins with a zero. -/
def readNumber (negative : Bool) (cs : List Char) : Draft × List Char :=
  let digits := cs.takeWhile Char.isDigit
  let rest := cs.dropWhile Char.isDigit
  match digits with
  | [] => (brokenNumber rest, rest)
  | '0' :: _ :: _ => (badToken (.plain .invalidNumber), rest)
  | whole => readFraction negative whole rest

/-! ## Strings -/

/-- A string as it was found: complete, or flawed, and what follows it. -/
inductive StringToken where
  | complete (text : String) (rest : List Char)
  | flawed (flaw : Flaw) (rest : List Char)

/-- The number written by four hexadecimal digits. -/
def hex4? (a b c d : Char) : Option Nat := Text.hexNumber? [a, b, c, d]

/-- The character that a letter after a backslash stands for. -/
def escapeOf? (c : Char) : Option Char :=
  if c = '"' || c = '\\' || c = '/' then some c
  else if c = 'b' then some '\x08'
  else if c = 'f' then some '\x0c'
  else if c = 'n' then some '\n'
  else if c = 'r' then some '\r'
  else if c = 't' then some '\t'
  else none

/-- A string in the middle of being read: its characters so far in reverse, the first half of a
surrogate pair if the second half must come next, and the first fault found that matters only if
the string is wanted. -/
structure StringState where
  reversed : List Char := []
  high : Option Nat := none
  fault : Option SyntaxFault := none

namespace StringState

/-- Something else than the second half of a pair comes. -/
def settle (s : StringState) (fault : SyntaxFault) : StringState :=
  if s.high.isSome then { s with high := none, fault := s.fault <|> some fault } else s

def push (s : StringState) (c : Char) : StringState :=
  { s.settle .endOfHexEscape with reversed := c :: s.reversed }

/-- Takes the code unit of a `\u` escape. -/
def pushUnit (s : StringState) (unit : Nat) : StringState :=
  if 0xDC00 ≤ unit && unit ≤ 0xDFFF then
    match s.high with
    | some high =>
      let c := Char.ofNat (0x10000 + (high - 0xD800) * 0x400 + (unit - 0xDC00))
      { s with reversed := c :: s.reversed, high := none }
    | none => { s with fault := s.fault <|> some .loneSurrogate }
  else
    let s := s.settle .loneSurrogate
    if 0xD800 ≤ unit && unit ≤ 0xDBFF then { s with high := some unit }
    else { s with reversed := Char.ofNat unit :: s.reversed }

/-- The string once its closing quotation mark is met. -/
def finish (s : StringState) (rest : List Char) : StringToken :=
  match (s.settle .endOfHexEscape).fault with
  | some fault => .flawed ⟨fault, none⟩ rest
  | none => .complete (String.ofList s.reversed.reverse) rest

/-- The string if it breaks off.  An earlier fault is told instead if the string is wanted. -/
def cut (s : StringState) (fault : SyntaxFault) : StringToken :=
  .flawed ⟨s.fault.getD fault, some fault⟩ []

end StringState

/-- What is wrong with a `\u` escape that lacks hexadecimal digits.  Four bytes are taken for them
whatever they are, so the text ends only if fewer are left. -/
def hexFault (cs : List Char) : SyntaxFault :=
  if 4 ≤ (cs.take 4).foldl (fun n c => n + c.utf8Size) 0 then .invalidEscape else .endInString

/-- Reads a string after its opening quotation mark. -/
def readString (s : StringState) : List Char → StringToken
  | [] => s.cut .endInString
  | '"' :: cs => s.finish cs
  | '\\' :: 'u' :: a :: b :: c :: d :: cs =>
    match hex4? a b c d with
    | some unit => readString (s.pushUnit unit) cs
    | none => s.cut .invalidEscape
  | '\\' :: c :: cs =>
    match escapeOf? c with
    | some e => readString (s.push e) cs
    | none =>
      if c = 'u' then s.cut (hexFault cs) else (s.settle .endOfHexEscape).cut .invalidEscape
  | ['\\'] => s.cut .endInString
  | c :: cs =>
    if c.toNat < 0x20 then (s.settle .endOfHexEscape).cut .controlCharacter
    else readString (s.push c) cs

/-- The draft of a string token, and what follows it. -/
def ofStringToken : StringToken → Draft × List Char
  | .complete s rest => (string s, rest)
  | .flawed flaw rest => (badString flaw, rest)

/-- A string token as a key, and what follows it. -/
def keyOfStringToken : StringToken → DraftKey × List Char
  | .complete s rest => (.text s, rest)
  | .flawed flaw rest => (.flawed flaw, rest)

/-! ## Values -/

/-- Reads the rest of a literal such as `null`. -/
def readLiteral (result : Draft) : (rest : List Char) → List Char → Draft × List Char
  | [], cs => (result, cs)
  | _ :: _, [] => (badToken (.plain .endInValue), [])
  | e :: es, c :: cs =>
    if c = e then readLiteral result es cs else (badToken (.plain .expectedLiteral), cs)

/-- Whether nothing can be read after the draft. -/
def isLast : Draft → Bool
  | badString flaw | badToken flaw => flaw.skipped.isSome
  | missing _ => true
  | _ => false

mutual

/-- Reads one value.  Of any three calls that follow each other one consumes a character, so a
budget of four times the length of the text is never used up. -/
def readValue : (budget : Nat) → List Char → Draft × List Char
  | 0, _ => (missing .endInValue, [])
  | budget + 1, cs =>
    match skipSpace cs with
    | [] => (missing .endInValue, [])
    | c :: cs =>
      if c = '"' then ofStringToken (readString {} cs)
      else if c = '[' then
        let (items, ending, rest) := readItems budget true cs
        (array items ending, rest)
      else if c = '\x7b' then
        let (members, ending, rest) := readMembers budget true cs
        (object members ending, rest)
      else if c = '-' then readNumber true cs
      else if c.isDigit then readNumber false (c :: cs)
      else if c = 'n' then readLiteral null ['u', 'l', 'l'] cs
      else if c = 't' then readLiteral (bool true) ['r', 'u', 'e'] cs
      else if c = 'f' then readLiteral (bool false) ['a', 'l', 's', 'e'] cs
      else (missing .expectedValue, c :: cs)

/-- Reads the items of an array up to its closing bracket; `first` says that none was read yet. -/
def readItems : (budget : Nat) → (first : Bool) → List Char → List Draft × Ending × List Char
  | 0, _, _ => ([], .cut, [])
  | budget + 1, first, cs =>
    match skipSpace cs with
    | [] => ([], .cut, [])
    | ']' :: cs => ([], .closed, cs)
    | c :: cs =>
      if first then readItem budget (c :: cs)
      else if c = ',' then
        match skipSpace cs with
        | [] => ([], .commaCut, [])
        | ']' :: cs => ([], .commaClosed, cs)
        | cs => readItem budget cs
      else ([], .stray, c :: cs)

/-- Reads one item and the items after it, unless the text breaks off inside the item. -/
def readItem : (budget : Nat) → List Char → List Draft × Ending × List Char
  | 0, _ => ([], .cut, [])
  | budget + 1, cs =>
    let (item, rest) := readValue budget cs
    if item.isLast then ([item], .cut, rest)
    else
      let (items, ending, rest) := readItems budget false rest
      (item :: items, ending, rest)

/-- Reads the members of an object up to its closing bracket. -/
def readMembers : (budget : Nat) → (first : Bool) → List Char →
    List (DraftKey × Draft) × Ending × List Char
  | 0, _, _ => ([], .cut, [])
  | budget + 1, first, cs =>
    match skipSpace cs with
    | [] => ([], .cut, [])
    | c :: cs =>
      if c = '\x7d' then ([], .closed, cs)
      else if first then readMember budget (c :: cs)
      else if c = ',' then
        match skipSpace cs with
        | [] => ([], .commaCut, [])
        | d :: cs =>
          if d = '\x7d' then ([], .commaClosed, cs) else readMember budget (d :: cs)
      else ([], .stray, c :: cs)

/-- Reads one member, which should begin with a quotation mark, and the members after it. -/
def readMember : (budget : Nat) → List Char → List (DraftKey × Draft) × Ending × List Char
  | 0, _ => ([], .cut, [])
  | budget + 1, '"' :: cs =>
    let (key, rest) := keyOfStringToken (readString {} cs)
    let (value, rest) := match skipSpace rest with
      | ':' :: rest => readValue budget rest
      | [] => (missing .endInObject, [])
      | rest => (missing .expectedColon, rest)
    if value.isLast then ([(key, value)], .cut, rest)
    else
      let (members, ending, rest) := readMembers budget false rest
      ((key, value) :: members, ending, rest)
  | budget + 1, cs =>
    let (found, rest) := readValue budget cs
    ([(.notString, found)], .cut, rest)

end

/-- A text as a draft, and whether nothing but blanks follows it. -/
def ofText (text : String) : Draft × Except SyntaxFault Unit :=
  let cs := text.toList
  let (draft, rest) := readValue (4 * cs.length + 4) cs
  (draft, if (skipSpace rest).isEmpty then .ok () else .error .trailingCharacters)

end MappingGraph.Draft
