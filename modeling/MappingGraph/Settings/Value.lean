import MappingGraph.Number.Decimal

/-!
# Values of settings

A setting comes from a file, where values have types, or from the environment, where everything is
text.  So a setting is read with some latitude: a switch may be given as a number or a word, a count
as a text.
-/

set_option autoImplicit false

namespace MappingGraph

/-- A number that need not be finite. -/
inductive Real where
  | finite (x : Binary64)
  | infinite (negative : Bool)
  | undefined
deriving DecidableEq, Repr, Inhabited

/-- The value of a setting. -/
inductive Setting where
  | none
  | bool (value : Bool)
  | integer (value : Int)
  | real (value : Real)
  | text (value : String)
  | list (items : List Setting)
  | table (entries : List (String × Setting))
deriving Repr, Inhabited

namespace Real

/-- Whether the number differs from zero. -/
def isNonzero : Real → Bool
  | finite x => x.significand ≠ 0
  | _ => true

/-- The nearest natural number of 64 bits, a half rounded up; what is out of range is cut off. -/
def toNatural : Real → Nat
  | finite x =>
    if x.negative then 0
    else
      let r := x.magnitude
      min ((2 * r.num + r.den) / (2 * r.den)) (Nat.pow 2 64 - 1)
  | infinite negative => if negative then 0 else Nat.pow 2 64 - 1
  | undefined => 0

/-- The nearest of these numbers to a decimal: one beyond the largest is infinite. -/
def ofDecimal (d : Decimal) : Real :=
  match d.toBinary64? with
  | some x => finite x
  | Option.none => infinite d.negative

/-- The number that a text denotes. -/
def ofText? (s : String) : Option Real :=
  let (sign, word) : Option Bool × List Char := match s.toList with
    | '+' :: cs => (some false, cs)
    | '-' :: cs => (some true, cs)
    | cs => (Option.none, cs)
  let lower := String.ofList (word.map Char.toLower)
  if lower = "inf" || lower = "infinity" then some (infinite (sign.getD false))
  else if lower = "nan" then some undefined
  else (Decimal.ofText? s).map ofDecimal

end Real

namespace Setting

def lowerWord (s : String) : String := String.ofList (s.toList.map Char.toLower)

/-- The setting as a switch. -/
def toBool? : Setting → Option Bool
  | bool b => some b
  | integer i => some (i ≠ 0)
  | real x => some x.isNonzero
  | text s =>
    let word := lowerWord s
    if word ∈ ["1", "true", "on", "yes"] then some true
    else if word ∈ ["0", "false", "off", "no"] then some false
    else Option.none
  | _ => Option.none

/-- The setting as a natural number of 64 bits. -/
def toNatural? : Setting → Option Nat
  | bool b => some (if b then 1 else 0)
  | integer i => if 0 ≤ i then some i.toNat else Option.none
  | real x => some x.toNatural
  | text s =>
    let word := lowerWord s
    if word ∈ ["true", "on", "yes"] then some 1
    else if word ∈ ["false", "off", "no"] then some 0
    else Text.naturalBelow? (Nat.pow 2 64) s
  | _ => Option.none

/-- The name that the setting chooses: a text, or the only key of a table. -/
def toName? : Setting → Option String
  | text s => some s
  | table [(key, _)] => some key
  | _ => Option.none

/-- The value of the entry with the key. -/
def find? (key : String) : List (String × Setting) → Option Setting
  | [] => Option.none
  | (k, v) :: es => if k = key then some v else find? key es

/-- Replaces the value of the key, or adds the key at the end. -/
def assign (key : String) (value : Setting) : List (String × Setting) → List (String × Setting)
  | [] => [(key, value)]
  | (k, v) :: es => if k = key then (key, value) :: es else (k, v) :: assign key value es

/-- The entries of a table; everything else has none. -/
def entriesOrNone : Setting → List (String × Setting)
  | table es => es
  | _ => []

/-- Lays a value over what the entries have for the key, which is taken in lower case.  A table is
laid over entry by entry, anything else replaces what was there. -/
def layOver (entries : List (String × Setting)) (key : String) : Setting → List (String × Setting)
  | table es =>
    let name := lowerWord key
    let below := (find? name entries).getD (table [])
    assign name (layEntries below es) entries
  | none => assign (lowerWord key) none entries
  | bool b => assign (lowerWord key) (bool b) entries
  | integer i => assign (lowerWord key) (integer i) entries
  | real x => assign (lowerWord key) (real x) entries
  | text s => assign (lowerWord key) (text s) entries
  | list xs => assign (lowerWord key) (list xs) entries
where
  /-- Lays entries over a value, which becomes a table if there are any. -/
  layEntries (below : Setting) : List (String × Setting) → Setting
    | [] => below
    | (k, v) :: es => layEntries (table (layOver below.entriesOrNone k v)) es

/-- Entries in the order in which they are met, each key once: of several with one key the last
counts. -/
def lastOfEach (entries : List (String × Setting)) : List (String × Setting) :=
  entries.foldl (fun es e => assign e.1 e.2 es) []

end Setting

end MappingGraph
