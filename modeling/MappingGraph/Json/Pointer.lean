import MappingGraph.Json.Basic

/-!
# JSON pointers

A pointer (RFC 6901) names a place inside a value by the keys and positions on the way down.  In its
text every step is a `/` and a token, in which `~1` stands for `/` and `~0` for `~`.

`Pointer` keeps the tokens as they are written, not what they stand for: a `~` that begins no escape
stands for itself, so two spellings may name one place, and the spelling is part of the answer when
a schema is located.  The text and the list of written tokens determine each other.

`Json.at?` looks a pointer up and `Json.modify?` changes the value there.
-/

set_option autoImplicit false

namespace MappingGraph

/-- A pointer as the list of its tokens, each as it is written. -/
structure Pointer where
  written : List String
deriving DecidableEq, Repr, Inhabited

namespace Pointer

/-- The pointer to the whole value. -/
def root : Pointer := ⟨[]⟩

/-- What a written token stands for. -/
def unescape : List Char → List Char
  | '~' :: '1' :: cs => '/' :: unescape cs
  | '~' :: '0' :: cs => '~' :: unescape cs
  | c :: cs => c :: unescape cs
  | [] => []

/-- How a token is written. -/
def escape (cs : List Char) : List Char :=
  cs.flatMap fun c => if c = '~' then ['~', '0'] else if c = '/' then ['~', '1'] else [c]

/-- The keys and positions that the pointer passes. -/
def tokens (p : Pointer) : List String :=
  p.written.map fun t => String.ofList (unescape t.toList)

/-- The pointer one step further down. -/
def child (p : Pointer) (token : String) : Pointer :=
  ⟨p.written ++ [String.ofList (escape token.toList)]⟩

/-- The pointer to an item of an array further down. -/
def item (p : Pointer) (index : Nat) : Pointer := p.child (Text.natText index)

/-- The written form. -/
def text (p : Pointer) : String :=
  String.ofList (p.written.flatMap fun t => '/' :: t.toList)

/-- The pieces between the `/` of a list; there is always one. -/
def splitSlash : List Char → List (List Char)
  | [] => [[]]
  | c :: cs =>
    if c = '/' then [] :: splitSlash cs
    else
      match splitSlash cs with
      | [] => [[c]]
      | piece :: pieces => (c :: piece) :: pieces

/-- The pointer with the written form; it is empty or begins with `/`. -/
def ofText? (s : String) : Option Pointer :=
  match s.toList with
  | [] => some root
  | '/' :: cs => some ⟨(splitSlash cs).map String.ofList⟩
  | _ => none

/-- The position that a token denotes in an array: decimal digits without a leading zero. -/
def index? (token : String) : Option Nat :=
  match token.toList with
  | ['0'] => some 0
  | '0' :: _ => none
  | cs => Text.digits? cs

end Pointer

namespace Json

/-- The value one step down. -/
def step? (token : String) : Json → Option Json
  | object ms => Members.find? token ms
  | array xs => (Pointer.index? token).bind fun i => xs[i]?
  | _ => none

/-- The value reached by the steps. -/
def follow? : List String → Json → Option Json
  | [], v => some v
  | token :: tokens, v => (v.step? token).bind (follow? tokens)

/-- The value at a pointer. -/
def at? (p : Pointer) (v : Json) : Option Json := v.follow? p.tokens

/-- The value with the part one step down replaced; that part must be there. -/
def replaceStep (token : String) (new : Json) : Json → Json
  | object ms => object (Members.set token new ms)
  | array xs =>
    match Pointer.index? token with
    | some i => array (xs.set i new)
    | none => array xs
  | v => v

/-- The value with the part reached by the steps changed; `none` if nothing is there. -/
def modifySteps? (change : Json → Json) : List String → Json → Option Json
  | [], v => some (change v)
  | token :: tokens, v => do
    let part ← v.step? token
    let changed ← modifySteps? change tokens part
    return replaceStep token changed v

/-- The value with the part at a pointer changed; `none` if nothing is there. -/
def modify? (p : Pointer) (change : Json → Json) (v : Json) : Option Json :=
  v.modifySteps? change p.tokens

end Json

end MappingGraph
