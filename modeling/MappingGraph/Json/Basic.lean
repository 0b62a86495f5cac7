import MappingGraph.Number.Binary64

/-!
# JSON values

`Json` is the type of the free values a mapping document carries: schemas, node configurations,
patches, literals.  Three points matter further on.

* A number is an integer of at most 64 bits or a binary64 number.  `1` and `1.0` are different
  values and are written differently.
* The members of an object are a list.  Objects read from text come out with their keys in
  ascending order and each key once (`Json.ordered`), and `Json.set` keeps that, so that an object
  has one form; objects that are written only, such as a document's own, list their members as they
  are to be printed.
* A member is looked up by `get?`, which answers `none` on everything that is not an object.
-/

set_option autoImplicit false

namespace MappingGraph

/-- A JSON number.  The integers are those from `-2 ^ 63` to `2 ^ 64 - 1`. -/
inductive Number where
  | integer (value : Int)
  | fractional (value : Binary64)
deriving DecidableEq, Repr, Inhabited

namespace Number

/-- The least and the largest integer that is kept as one. -/
def minInteger : Int := -Int.pow 2 63

@[inherit_doc minInteger]
def maxInteger : Int := Int.pow 2 64 - 1

/-- The largest integer of 64 bits with a sign. -/
def maxSigned : Int := Int.pow 2 63 - 1

/-- The number as a signed integer of 64 bits, if it is one. -/
def toSigned? : Number → Option Int
  | .integer i => if minInteger ≤ i && i ≤ maxSigned then some i else none
  | .fractional _ => none

def text : Number → String
  | .integer i => Text.intText i
  | .fractional x => x.text

end Number

/-- A JSON value. -/
inductive Json where
  | null
  | bool (value : Bool)
  | number (value : Number)
  | string (value : String)
  | array (items : List Json)
  | object (members : List (String × Json))
deriving Repr, Inhabited, BEq

/-- The named values of an object. -/
abbrev Members := List (String × Json)

namespace Members

/-- The value of the first member with the key. -/
def find? (key : String) : Members → Option Json
  | [] => none
  | (k, v) :: ms => if k = key then some v else find? key ms

/-- Replaces the value of the key, or adds the key before the first larger one. -/
def set (key : String) (value : Json) : Members → Members
  | [] => [(key, value)]
  | (k, v) :: ms =>
    if k = key then (key, value) :: ms
    else if key < k then (key, value) :: (k, v) :: ms
    else (k, v) :: set key value ms

/-- The members without those of the key. -/
def erase (key : String) (ms : Members) : Members :=
  ms.filter fun m => m.1 ≠ key

/-- The members in ascending order of their keys; of several with one key the last. -/
def ordered (ms : Members) : Members :=
  ms.foldl (fun acc m => set m.1 m.2 acc) []

end Members

namespace Json

/-- The member of an object with the key. -/
def get? (key : String) : Json → Option Json
  | object ms => Members.find? key ms
  | _ => none

/-- The text of a string. -/
def string? : Json → Option String
  | string s => some s
  | _ => none

/-- The items of an array. -/
def items? : Json → Option (List Json)
  | array xs => some xs
  | _ => none

def isNull : Json → Bool
  | null => true
  | _ => false

/-- The text of the member with the key, if the value is an object and the member a string. -/
def getString? (key : String) (v : Json) : Option String :=
  (v.get? key).bind string?

/-- A natural number as a value. -/
def ofNat (n : Nat) : Json := number (.integer n)

/-- The depth of nesting: how many arrays and objects lie around the innermost value. -/
def depth : Json → Nat
  | null | bool _ | number _ | string _ => 0
  | array xs => depthOfItems xs + 1
  | object ms => depthOfMembers ms + 1
where
  depthOfItems : List Json → Nat
    | [] => 0
    | x :: xs => max x.depth (depthOfItems xs)
  depthOfMembers : List (String × Json) → Nat
    | [] => 0
    | (_, x) :: ms => max x.depth (depthOfMembers ms)

/-- How many values there are, the value itself and everything inside it. -/
def size : Json → Nat
  | null | bool _ | number _ | string _ => 1
  | array xs => sizeOfItems xs + 1
  | object ms => sizeOfMembers ms + 1
where
  sizeOfItems : List Json → Nat
    | [] => 0
    | x :: xs => x.size + sizeOfItems xs
  sizeOfMembers : List (String × Json) → Nat
    | [] => 0
    | (_, x) :: ms => x.size + sizeOfMembers ms

end Json

end MappingGraph
