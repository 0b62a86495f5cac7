/-!
# Whole numbers as text

Writing a number takes its decimal digits, without leading zeros.  Reading one is more liberal: a
leading `+` and leading zeros are allowed, but nothing else than ASCII digits may follow the sign,
and a number outside the asked range is refused instead of wrapped around.

Escapes in quoted text name a character by its number in hexadecimal digits; `charOfHex?` reads
one.
-/

set_option autoImplicit false

namespace MappingGraph.Text

/-- The value of a decimal digit. -/
def digitValue (c : Char) : Nat := c.toNat - '0'.toNat

/-- The number that a list of decimal digits denotes. -/
def digitsValue (cs : List Char) : Nat :=
  cs.foldl (fun n c => 10 * n + digitValue c) 0

/-- The decimal digits of a number. -/
def natDigits (n : Nat) : List Char := Nat.toDigits 10 n

/-- The decimal digits of a number. -/
def natText (n : Nat) : String := String.ofList (natDigits n)

/-- The decimal digits of an integer, after a `-` if it is negative. -/
def intText (i : Int) : String :=
  if i < 0 then "-" ++ natText i.natAbs else natText i.natAbs

/-- The number denoted by a list that holds digits only, and at least one. -/
def digits? (cs : List Char) : Option Nat :=
  if !cs.isEmpty && cs.all Char.isDigit then some (digitsValue cs) else none

/-- The number below `bound` that a text denotes, a leading `+` allowed. -/
def naturalBelow? (bound : Nat) (s : String) : Option Nat :=
  let digits := match s.toList with
    | '+' :: cs => cs
    | cs => cs
  (digits? digits).filter (· < bound)

/-- The integer from `low` up to `high` that a text denotes, a leading `+` or `-` allowed. -/
def integerWithin? (low high : Int) (s : String) : Option Int :=
  let read := match s.toList with
    | '+' :: cs => (digits? cs).map Int.ofNat
    | '-' :: cs => (digits? cs).map fun n => -(Int.ofNat n)
    | cs => (digits? cs).map Int.ofNat
  read.filter fun i => low ≤ i && i ≤ high

/-! ## Hexadecimal digits -/

/-- The value of a hexadecimal digit. -/
def hexValue? (c : Char) : Option Nat :=
  if c.isDigit then some (c.toNat - '0'.toNat)
  else if 'a' ≤ c && c ≤ 'f' then some (c.toNat - 'a'.toNat + 10)
  else if 'A' ≤ c && c ≤ 'F' then some (c.toNat - 'A'.toNat + 10)
  else none

def isHexDigit (c : Char) : Bool := (hexValue? c).isSome

/-- The number that digits of a base up to 16 denote. -/
def radixValue (base : Nat) (digits : List Char) : Nat :=
  digits.foldl (fun n c => base * n + (hexValue? c).getD 0) 0

/-- The number that hexadecimal digits denote, if nothing else stands there. -/
def hexNumber? (digits : List Char) : Option Nat :=
  if digits.all isHexDigit then some (radixValue 16 digits) else none

/-- The character with a number; halves of surrogate pairs are none. -/
def charOfNumber? (n : Nat) : Option Char :=
  if n < 0xD800 || (0xE000 ≤ n && n < 0x110000) then some (Char.ofNat n) else none

/-- The character with a hexadecimal number. -/
def charOfHex? (digits : List Char) : Option Char := (hexNumber? digits).bind charOfNumber?

end MappingGraph.Text
