import MappingGraph.Text.Numeral

/-!
# Binary floating-point numbers of 64 bits

A number with a fraction is kept as a finite binary64 number: a sign, a significand below `2 ^ 53`
and a power of two.  Everything here is exact arithmetic on natural numbers:

* `Binary64.ofDecimal?` rounds a decimal to the nearest binary64 number, a tie to the even
  significand, and refuses a decimal too large for any;
* `Binary64.scaled?` takes a decimal for a product or a quotient of binary64 numbers.  It rounds
  more than once, and so it may miss the nearest number by a little;
* `Binary64.shortest` gives the decimal with the fewest digits among those that round back to the
  number, and of these the nearest to it.

No operation of the machine's own floating point is used, so the definitions can be evaluated in a
proof.
-/

set_option autoImplicit false

namespace MappingGraph

/-- The number `± significand * 2 ^ exponent`.  Those built here are in the normal form of
binary64: the exponent lies between `-1074` and `971`, and the significand is below `2 ^ 53` and at
least `2 ^ 52` unless the exponent is the smallest one. -/
structure Binary64 where
  negative : Bool
  significand : Nat
  exponent : Int
deriving DecidableEq, Repr, Inhabited

/-- A fraction of natural numbers; the denominator is positive. -/
structure Ratio where
  num : Nat
  den : Nat
deriving DecidableEq, Repr

namespace Ratio

/-- The number `n * base ^ e`. -/
def scaled (n : Nat) (base : Nat) (e : Int) : Ratio :=
  if 0 ≤ e then ⟨n * Nat.pow base e.toNat, 1⟩ else ⟨n, Nat.pow base (-e).toNat⟩

/-- The fraction divided by `base ^ e`. -/
def divPow (r : Ratio) (base : Nat) (e : Int) : Ratio :=
  if 0 ≤ e then ⟨r.num, r.den * Nat.pow base e.toNat⟩
  else ⟨r.num * Nat.pow base (-e).toNat, r.den⟩

def lt (a b : Ratio) : Bool := a.num * b.den < b.num * a.den

def le (a b : Ratio) : Bool := a.num * b.den ≤ b.num * a.den

def mul (a b : Ratio) : Ratio := ⟨a.num * b.num, a.den * b.den⟩

/-- The quotient; the divisor is not zero. -/
def div (a b : Ratio) : Ratio := ⟨a.num * b.den, a.den * b.num⟩

/-- The nearest natural number; of two equally near ones the even. -/
def roundEven (r : Ratio) : Nat :=
  let q := r.num / r.den
  let twice := 2 * (r.num % r.den)
  if twice < r.den then q
  else if r.den < twice then q + 1
  else if q % 2 = 0 then q else q + 1

/-- The largest `k` with `2 ^ k` at most the fraction, which is positive. -/
def log2 (r : Ratio) : Int :=
  let k : Int := (Nat.log2 r.num : Int) - Nat.log2 r.den
  if le (scaled 1 2 k) r then k else k - 1

end Ratio

namespace Binary64

/-- The smallest power of two that scales a significand. -/
def minExponent : Int := -1074

/-- The largest power of two that scales a significand. -/
def maxExponent : Int := 971

def zero (negative : Bool) : Binary64 := ⟨negative, 0, minExponent⟩

/-- The binary64 number nearest to a fraction; `none` if it is beyond the largest one. -/
def ofRatio? (negative : Bool) (r : Ratio) : Option Binary64 :=
  if r.num = 0 then some (zero negative)
  else
    let e := max (r.log2 - 52) minExponent
    let m := (r.divPow 2 e).roundEven
    let rounded : Binary64 :=
      if m = Nat.pow 2 53 then ⟨negative, Nat.pow 2 52, e + 1⟩ else ⟨negative, m, e⟩
    if rounded.exponent ≤ maxExponent then some rounded else none

/-- The binary64 number nearest to `n * 10 ^ e`; `none` if it is beyond the largest one.  A decimal
whose leading digit stands far outside the range is settled by its position alone, so that an
absurd exponent costs nothing. -/
def ofDecimal? (negative : Bool) (n : Nat) (e : Int) : Option Binary64 :=
  let position := e + (Text.natDigits n).length
  if n = 0 || position < -330 then some (zero negative)
  else if 320 < position then none
  else ofRatio? negative (Ratio.scaled n 10 e)

/-- The size of the number, without its sign. -/
def magnitude (x : Binary64) : Ratio := Ratio.scaled x.significand 2 x.exponent

/-! ## Scaling by powers of ten

A power of ten up to `10 ^ 308` is a binary64 number, though from `10 ^ 23` on it is rounded. -/

/-- The binary64 number nearest to a natural number. -/
def ofNat? (n : Nat) : Option Binary64 := ofRatio? false ⟨n, 1⟩

/-- The product with the binary64 number for `10 ^ k`. -/
def times? (x : Binary64) (k : Nat) : Option Binary64 := do
  let power ← ofNat? (Nat.pow 10 k)
  ofRatio? x.negative (x.magnitude.mul power.magnitude)

/-- The quotient by the binary64 number for `10 ^ k`. -/
def over? (x : Binary64) (k : Nat) : Option Binary64 := do
  let power ← ofNat? (Nat.pow 10 k)
  ofRatio? x.negative (x.magnitude.div power.magnitude)

/-- Divides by `10 ^ 308` as many times as is said, unless zero is reached before, and then by
`10 ^ rest`. -/
def lowered? (x : Binary64) (rest : Nat) : (times : Nat) → Option Binary64
  | 0 => x.over? rest
  | times + 1 =>
    if x.significand = 0 then some x else (x.over? 308).bind fun y => lowered? y rest times

/-- The number `n * 10 ^ e`, rounded after each step; `none` if it is beyond the largest one. -/
def scaled? (n : Nat) (e : Int) : Option Binary64 := do
  let x ← ofNat? n
  if e < 0 then
    let times := (e.natAbs - 1) / 308
    x.lowered? (e.natAbs - 308 * times) times
  else if e ≤ 308 then x.times? e.toNat
  else if x.significand = 0 then some x
  else none

/-- The ends of the interval of numbers that round to `x`.  It reaches half-way to the neighbours;
below a power of two the neighbour is only half as far away. -/
def lowerEnd (x : Binary64) : Ratio :=
  if x.significand = Nat.pow 2 52 && minExponent < x.exponent then
    Ratio.scaled (4 * x.significand - 1) 2 (x.exponent - 2)
  else Ratio.scaled (2 * x.significand - 1) 2 (x.exponent - 1)

@[inherit_doc lowerEnd]
def upperEnd (x : Binary64) : Ratio := Ratio.scaled (2 * x.significand + 1) 2 (x.exponent - 1)

/-- Whether a positive number rounds to the size of `x`.  The two ends do exactly when the
significand is even. -/
def rounds (x : Binary64) (r : Ratio) : Bool :=
  if x.significand % 2 = 0 then x.lowerEnd.le r && r.le x.upperEnd
  else x.lowerEnd.lt r && r.lt x.upperEnd

/-- The multiple of `10 ^ k` nearest to `x` among the two around it that round to `x`; of two
equally near ones the even. -/
def onGrid? (x : Binary64) (k : Int) : Option Nat :=
  let v := x.magnitude.divPow 10 k
  let below := v.num / v.den
  let hit := fun n => 0 < n && x.rounds (Ratio.scaled n 10 k)
  match hit below, hit (below + 1) with
  | true, true => some v.roundEven
  | true, false => some below
  | false, true => some (below + 1)
  | false, false => none

/-- The coarsest of the grids `10 ^ k, 10 ^ (k - 1), …` with a decimal that rounds to `x`. -/
def firstOnGrid (x : Binary64) : Nat → Int → Nat × Int
  | 0, k => ((x.magnitude.divPow 10 k).roundEven, k)
  | tries + 1, k =>
    match x.onGrid? k with
    | some n => (n, k)
    | none => firstOnGrid x tries (k - 1)

/-- The position of the leading decimal digit, perhaps one too large. -/
def leadingDecimal (x : Binary64) : Int :=
  let r := x.magnitude
  (Text.natDigits r.num).length - (Text.natDigits r.den).length

/-- The digits and the power of ten of the shortest decimal that rounds to `x`, whose last digit is
not zero.  Seventeen digits always suffice; the search starts at a power of ten above `x`. -/
def shortest (x : Binary64) : List Char × Int :=
  if x.significand = 0 then (['0'], 0)
  else
    let (n, k) := x.firstOnGrid 20 (x.leadingDecimal + 1)
    let digits := Text.natDigits n
    let kept := (digits.reverse.dropWhile (· == '0')).reverse
    (kept, k + (digits.length - kept.length : Nat))

/-! ## The written form

A number is written with a point whenever its leading digit stands between the fifth place after
the point and the sixteenth before it, and with an exponent otherwise. -/

/-- How the number is written: `3.0`, `0.00001`, `1e+16`, `-1.5e-7`. -/
def text (x : Binary64) : String :=
  let (digits, k) := x.shortest
  let leading : Int := k + digits.length - 1
  let body :=
    if x.significand = 0 then "0.0"
    else if -5 ≤ leading && leading < 0 then
      "0." ++ String.ofList (List.replicate (-leading - 1).toNat '0' ++ digits)
    else if 0 ≤ leading && leading ≤ 15 then
      if 0 ≤ k then String.ofList (digits ++ List.replicate k.toNat '0') ++ ".0"
      else
        let whole := (leading + 1).toNat
        String.ofList (digits.take whole ++ '.' :: digits.drop whole)
    else
      let mantissa := match digits with
        | [] => []
        | [d] => [d]
        | d :: ds => d :: '.' :: ds
      String.ofList mantissa ++ (if leading < 0 then "e-" else "e+") ++ Text.natText leading.natAbs
  if x.negative then "-" ++ body else body

end Binary64

end MappingGraph
