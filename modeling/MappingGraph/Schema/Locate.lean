import MappingGraph.Json.Pointer
import MappingGraph.Schema.Handle

/-!
# Locating a handle in a schema

A segment leads from a schema to the property of its name: one that the schema declares itself under
`properties`, or one declared in a branch of its `oneOf`, `anyOf` or `allOf`, at any depth.  A
schema that is only a `$ref` to another place of the document is replaced by what stands there.

The search for a property goes depth first through the branches and takes the first declaration it
meets.  Branches may lead back to a schema that is still being searched, so the places already
entered are remembered and not entered again.  What is entered is known by its pointer: the place
the search started from or one that some `$ref` names, and from there a way down.  There are only so
many of these in a document, and `searchBudget` is a bound on their number; the search can never
nest deeper.

`locate?` answers with the place: the schema and its pointer, which jumps wherever a `$ref` was
followed.
-/

set_option autoImplicit false

namespace MappingGraph

/-- A schema inside a document, and where it stands. -/
structure Place where
  pointer : Pointer
  schema : Json
deriving Repr, Inhabited

namespace Schema

/-- So many references are followed one after the other. -/
def referenceLimit : Nat := 32

/-- The keywords under which the branches of a union are listed, in the order of the search. -/
def branchKeywords : List String := ["oneOf", "anyOf", "allOf"]

/-- The pointer of a reference; it must lead into the same document. -/
def reference? (text : String) : Option Pointer :=
  match text.toList with
  | '#' :: cs => Pointer.ofText? (String.ofList cs)
  | _ => none

/-- Follows references until a schema is reached that is none, for at most so many looks. -/
def followReferences (root : Json) : (looks : Nat) → Place → Option Place
  | 0, _ => none
  | looks + 1, place =>
    match place.schema.getString? "$ref" with
    | none => some place
    | some text => do
      let pointer ← reference? text
      let schema ← root.at? pointer
      followReferences root looks ⟨pointer, schema⟩

/-- The schema a place stands for. -/
def deref (root : Json) (place : Place) : Option Place :=
  followReferences root referenceLimit place

/-- The property that a schema declares itself. -/
def property? (name : String) (place : Place) : Option Place := do
  let properties ← place.schema.get? "properties"
  let schema ← properties.get? name
  return ⟨(place.pointer.child "properties").child name, schema⟩

/-- The branches listed under a keyword that can be reached. -/
def branchesUnder (root : Json) (place : Place) (keyword : String) : List Place :=
  match place.schema.get? keyword with
  | some (.array branches) =>
    branches.zipIdx.filterMap fun (branch, i) =>
      deref root ⟨(place.pointer.child keyword).item i, branch⟩
  | _ => []

/-- The branches of a schema in the order of the search. -/
def branches (root : Json) (place : Place) : List Place :=
  branchKeywords.flatMap (branchesUnder root place)

/-- Tries places one after the other, leaving out those entered before.  The answer comes with the
pointers entered so far. -/
def firstFound (search : Place → List Pointer → Option Place × List Pointer) :
    List Place → List Pointer → Option Place × List Pointer
  | [], entered => (none, entered)
  | place :: places, entered =>
    if place.pointer ∈ entered then firstFound search places entered
    else
      match search place (place.pointer :: entered) with
      | (some found, entered) => (some found, entered)
      | (none, entered) => firstFound search places entered

/-- Searches a schema and its branches for a property, nested at most so deep. -/
def search (root : Json) (name : String) :
    (budget : Nat) → Place → List Pointer → Option Place × List Pointer
  | 0, _, entered => (none, entered)
  | budget + 1, place, entered =>
    match property? name place with
    | some found => (some found, entered)
    | none => firstFound (search root name budget) (branches root place) entered

/-- No search in the document enters more places than this. -/
def searchBudget (root : Json) : Nat := Nat.pow (root.size + 1) 3

/-- The first declaration of a property in a schema or its branches. -/
def findProperty (root : Json) (name : String) (place : Place) : Option Place :=
  (search root name (searchBudget root) place [place.pointer]).1

/-- Goes on into the items of an array, if the schema describes them. -/
def enterItems (root : Json) (place : Place) : Option Place :=
  match place.schema.get? "items" with
  | some items => deref root ⟨place.pointer.child "items", items⟩
  | none => some place

/-- The place one segment further down. -/
def step (root : Json) (place : Place) (segment : Segment) : Option Place := do
  let declared ← findProperty root segment.name place
  let property ← deref root declared
  if segment.array then enterItems root property else some property

/-- The place that segments lead to from the root of the document. -/
def locate? (segments : List Segment) (root : Json) : Option Place := do
  let start ← deref root ⟨Pointer.root, root⟩
  segments.foldlM (step root) start

/-- The schema that segments lead to. -/
def resolve? (segments : List Segment) (root : Json) : Option Json :=
  (locate? segments root).map (·.schema)

/-- Whether a handle names something in a schema.  Nothing is in a schema that is `null`. -/
def hasHandle (handle : String) (schema : Json) : Bool :=
  !schema.isNull && ((Handle.parse? handle).bind (locate? · schema)).isSome

end Schema

end MappingGraph
