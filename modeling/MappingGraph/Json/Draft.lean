import MappingGraph.Json.Basic

/-!
# JSON text as far as it can be read

Whether a text is acceptable depends on what is expected of it.  A member that nobody asks for may
hold a number out of range or be nested too deep; a member that is asked for must not; and of two
faults the one that stands first in the text is reported, be it a missing comma or a string where a
number belongs.  So reading goes in two steps: the text is turned into a `Draft`, a tree in which
the faults stand at their places, and a decoder walks the tree in text order and stops at the first
fault that matters to it.

The same place may be told differently by one who wants the value and one who passes over it.  A
bad token therefore carries a `Flaw` with both tellings, and the end of an array or object is kept
as what stands there, an `Ending`, which each reading turns into its own fault.  Where passing over
a token finds nothing wrong, as with a number beyond the largest or half of a surrogate pair,
reading goes on after it; otherwise nothing more is read.

`Draft.skip` reports the first fault that matters to nobody's value, `Draft.value?` the first that
matters to a value.
-/

set_option autoImplicit false

namespace MappingGraph

/-- What is wrong with the form of a JSON text. -/
inductive SyntaxFault where
  | endInArray
  | endInObject
  | endInString
  | endInValue
  | expectedColon
  | expectedArrayEnd
  | expectedObjectEnd
  | expectedLiteral
  | expectedValue
  | invalidEscape
  | invalidNumber
  | numberOutOfRange
  | loneSurrogate
  | endOfHexEscape
  | controlCharacter
  | keyNotString
  | trailingComma
  | trailingCharacters
  | tooDeep
deriving DecidableEq, Repr, Inhabited

namespace SyntaxFault

/-- The fault in words. -/
def message : SyntaxFault → String
  | endInArray => "EOF while parsing a list"
  | endInObject => "EOF while parsing an object"
  | endInString => "EOF while parsing a string"
  | endInValue => "EOF while parsing a value"
  | expectedColon => "expected `:`"
  | expectedArrayEnd => "expected `,` or `]`"
  | expectedObjectEnd => "expected `,` or `\x7d`"
  | expectedLiteral => "expected ident"
  | expectedValue => "expected value"
  | invalidEscape => "invalid escape"
  | invalidNumber => "invalid number"
  | numberOutOfRange => "number out of range"
  | loneSurrogate => "lone leading surrogate in hex escape"
  | endOfHexEscape => "unexpected end of hex escape"
  | controlCharacter => "control character (\\u0000-\\u001F) found while parsing a string"
  | keyNotString => "key must be a string"
  | trailingComma => "trailing comma"
  | trailingCharacters => "trailing characters"
  | tooDeep => "recursion limit exceeded"

end SyntaxFault

/-- What is wrong with a token. -/
structure Flaw where
  /-- The fault if the value of the token is wanted. -/
  wanted : SyntaxFault
  /-- The fault if the token is passed over; if there is none, the text makes sense after it. -/
  skipped : Option SyntaxFault
deriving DecidableEq, Repr, Inhabited

namespace Flaw

/-- A flaw that is one fault in either case. -/
def plain (fault : SyntaxFault) : Flaw := ⟨fault, some fault⟩

/-- Reports the flaw of a token that is passed over. -/
def skip (flaw : Flaw) : Except SyntaxFault Unit :=
  match flaw.skipped with
  | some fault => .error fault
  | none => .ok ()

end Flaw

/-- What stands where the next item or the closing bracket of an array or object should be. -/
inductive Ending where
  /-- The closing bracket. -/
  | closed
  /-- Nothing: the text ends. -/
  | cut
  /-- A comma and then the closing bracket. -/
  | commaClosed
  /-- A comma at the end of the text. -/
  | commaCut
  /-- Something that is neither a comma nor the closing bracket. -/
  | stray
deriving DecidableEq, Repr, Inhabited

namespace Ending

/-- Checks the end of an array whose items are wanted. -/
def ofArray : Ending → Except SyntaxFault Unit
  | closed => .ok ()
  | cut => .error .endInArray
  | commaClosed => .error .trailingComma
  | commaCut => .error .endInValue
  | stray => .error .expectedArrayEnd

/-- Checks the end of an array that is passed over: after a comma a value is looked for. -/
def ofSkippedArray : Ending → Except SyntaxFault Unit
  | commaClosed => .error .expectedValue
  | ending => ending.ofArray

/-- Checks the end of an array of which all items were read that it can have: no comma is looked
for any more. -/
def ofFullArray : Ending → Except SyntaxFault Unit
  | closed => .ok ()
  | cut => .error .endInArray
  | commaClosed => .error .trailingComma
  | commaCut | stray => .error .trailingCharacters

/-- Checks the end of an object whose members are wanted. -/
def ofObject : Ending → Except SyntaxFault Unit
  | closed => .ok ()
  | cut => .error .endInObject
  | commaClosed => .error .trailingComma
  | commaCut => .error .endInValue
  | stray => .error .expectedObjectEnd

/-- Checks the end of an object that is passed over: after a comma a key is looked for. -/
def ofSkippedObject : Ending → Except SyntaxFault Unit
  | commaClosed => .error .keyNotString
  | commaCut => .error .endInObject
  | ending => ending.ofObject

/-- Checks the end of an object that has the one member it may have. -/
def ofSingleton : Ending → Except SyntaxFault Unit
  | closed => .ok ()
  | cut => .error .endInObject
  | commaClosed | commaCut | stray => .error .expectedValue

end Ending

/-- The key of a member as far as it can be read. -/
inductive DraftKey where
  | text (key : String)
  | flawed (flaw : Flaw)
  /-- Something else than a string.  It stands in the place of the value. -/
  | notString
deriving DecidableEq, Repr, Inhabited

namespace DraftKey

/-- The key, if the member is wanted. -/
def text? : DraftKey → Except SyntaxFault String
  | text key => .ok key
  | flawed flaw => .error flaw.wanted
  | notString => .error .keyNotString

/-- Passes over the key. -/
def skip : DraftKey → Except SyntaxFault Unit
  | text _ => .ok ()
  | flawed flaw => flaw.skip
  | notString => .error .keyNotString

end DraftKey

/-- A JSON text as far as it can be read. -/
inductive Draft where
  | null
  | bool (value : Bool)
  | number (value : Number)
  | string (value : String)
  | array (items : List Draft) (ending : Ending)
  | object (members : List (DraftKey × Draft)) (ending : Ending)
  | badString (flaw : Flaw)
  /-- A number or a word such as `null` that is not written as it should be. -/
  | badToken (flaw : Flaw)
  /-- No value begins here. -/
  | missing (fault : SyntaxFault)
deriving Inhabited

/-- Where a draft stands, which decides how much is asked of it. -/
inductive Standing where
  /-- In a text, with so many levels of nesting still allowed. -/
  | text (room : Nat)
  /-- In a value that was read before, its members in ascending order. -/
  | value
  /-- In an object of which everything had to be read before its kind was known. -/
  | gathered
deriving DecidableEq, Repr

namespace Standing

/-- A text may be nested to this depth. -/
def textRoom : Nat := 127

/-- The standing inside an array or object that is entered here. -/
def enter : Standing → Except SyntaxFault Standing
  | text 0 => .error .tooDeep
  | text (room + 1) => .ok (text room)
  | value => .ok value
  | gathered => .ok gathered

end Standing

namespace Draft

/-- The draft of a value. -/
def ofJson : Json → Draft
  | .null => null
  | .bool b => bool b
  | .number n => number n
  | .string s => string s
  | .array xs => array (ofItems xs) .closed
  | .object ms => object (ofMembers ms) .closed
where
  ofItems : List Json → List Draft
    | [] => []
    | x :: xs => ofJson x :: ofItems xs
  ofMembers : List (String × Json) → List (DraftKey × Draft)
    | [] => []
    | (k, v) :: ms => (.text k, ofJson v) :: ofMembers ms

/-- Passes over a draft whose value is not wanted. -/
def skip : Draft → Except SyntaxFault Unit
  | null | bool _ | number _ | string _ => .ok ()
  | badString flaw | badToken flaw => flaw.skip
  | missing fault => .error fault
  | array xs ending => do
    skipItems xs
    ending.ofSkippedArray
  | object ms ending => do
    skipMembers ms
    ending.ofSkippedObject
where
  skipItems : List Draft → Except SyntaxFault Unit
    | [] => .ok ()
    | x :: xs => do
      x.skip
      skipItems xs
  skipMembers : List (DraftKey × Draft) → Except SyntaxFault Unit
    | [] => .ok ()
    | (key, x) :: ms => do
      key.skip
      x.skip
      skipMembers ms

/-- The value of a draft, the members of its objects in ascending order. -/
def value? (standing : Standing) : Draft → Except SyntaxFault Json
  | null => .ok .null
  | bool b => .ok (.bool b)
  | number n => .ok (.number n)
  | string s => .ok (.string s)
  | badString flaw | badToken flaw => .error flaw.wanted
  | missing fault => .error fault
  | array xs ending => do
    let inside ← standing.enter
    let values ← items? inside xs
    ending.ofArray
    return .array values
  | object ms ending => do
    let inside ← standing.enter
    let values ← members? inside ms
    ending.ofObject
    return .object (Members.ordered values)
where
  items? (standing : Standing) : List Draft → Except SyntaxFault (List Json)
    | [] => .ok []
    | x :: xs => do
      let v ← x.value? standing
      return v :: (← items? standing xs)
  members? (standing : Standing) :
      List (DraftKey × Draft) → Except SyntaxFault (List (String × Json))
    | [] => .ok []
    | (key, x) :: ms => do
      let k ← key.text?
      let v ← x.value? standing
      return (k, v) :: (← members? standing ms)

/-- The depth of nesting. -/
def depth : Draft → Nat
  | null | bool _ | number _ | string _ | badString _ | badToken _ | missing _ => 0
  | array xs _ => depthOfItems xs + 1
  | object ms _ => depthOfMembers ms + 1
where
  depthOfItems : List Draft → Nat
    | [] => 0
    | x :: xs => max x.depth (depthOfItems xs)
  depthOfMembers : List (DraftKey × Draft) → Nat
    | [] => 0
    | (_, x) :: ms => max x.depth (depthOfMembers ms)

end Draft

end MappingGraph
