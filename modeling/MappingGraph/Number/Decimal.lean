import MappingGraph.Number.Binary64

/-!
# Decimal numbers as text

A number written by hand may have a sign, digits, a point with digits on at least one side of it,
and an exponent: `1`, `-.5`, `5.`, `+1e5`.  `Decimal.ofText?` reads one exactly; `Binary64.ofText?`
takes the nearest binary64 number and refuses a decimal that is beyond the largest.
-/

set_option autoImplicit false

namespace MappingGraph

/-- The number `± digits * 10 ^ exponent`. -/
structure Decimal where
  negative : Bool
  digits : Nat
  exponent : Int
deriving DecidableEq, Repr, Inhabited

namespace Decimal

/-- The exponent that a list denotes; an empty one denotes none. -/
def exponent? : List Char → Option Int
  | [] => some 0
  | c :: cs =>
    if c = 'e' || c = 'E' then
      match cs with
      | '+' :: ds => (Text.digits? ds).map Int.ofNat
      | '-' :: ds => (Text.digits? ds).map fun n => -Int.ofNat n
      | ds => (Text.digits? ds).map Int.ofNat
    else none

/-- The number that digits, a point, digits and an exponent denote. -/
def unsigned? (negative : Bool) (cs : List Char) : Option Decimal :=
  let whole := cs.takeWhile Char.isDigit
  let (frac, rest) := match cs.dropWhile Char.isDigit with
    | '.' :: ds => (ds.takeWhile Char.isDigit, ds.dropWhile Char.isDigit)
    | ds => ([], ds)
  if whole.isEmpty && frac.isEmpty then none
  else do
    let e ← exponent? rest
    return ⟨negative, Text.digitsValue (whole ++ frac), e - frac.length⟩

/-- The number that a text denotes. -/
def ofText? (s : String) : Option Decimal :=
  match s.toList with
  | '+' :: cs => unsigned? false cs
  | '-' :: cs => unsigned? true cs
  | cs => unsigned? false cs

/-- The nearest binary64 number, if the number is not beyond the largest. -/
def toBinary64? (d : Decimal) : Option Binary64 :=
  Binary64.ofDecimal? d.negative d.digits d.exponent

end Decimal

/-- The binary64 number nearest to the one that a text denotes. -/
def Binary64.ofText? (s : String) : Option Binary64 := (Decimal.ofText? s).bind Decimal.toBinary64?

end MappingGraph
