import MappingGraph.Json.Decoder

/-!
# Decoders of structures

A structure is described by its fields: key, decoder, and the value taken when the key is missing.
It is read from an object, where the fields stand in any order, no field twice, and other keys are
passed over; or from an array, which lists the fields in their order and may stop early if the rest
can be missing.

`Fields` lists fields of different types, `Slots` the values found so far, and `Values` all of them.
-/

set_option autoImplicit false

namespace MappingGraph

/-- A field of a structure. -/
structure Field (α : Type) where
  key : String
  decode : Decoder α
  absent : Option α := none

/-- The fields of a structure. -/
inductive Fields : List Type → Type 1
  | nil : Fields []
  | cons {α : Type} {αs : List Type} (field : Field α) (rest : Fields αs) : Fields (α :: αs)

/-- The values found so far. -/
def Slots : List Type → Type
  | [] => Unit
  | α :: αs => Option α × Slots αs

/-- A value for each field. -/
def Values : List Type → Type
  | [] => Unit
  | α :: αs => α × Values αs

namespace Fields

/-- How many fields there are. -/
def size {αs : List Type} : Fields αs → Nat
  | nil => 0
  | cons _ rest => rest.size + 1

/-- No value found yet. -/
def noSlots : {αs : List Type} → Fields αs → Slots αs
  | _, nil => ()
  | _, cons _ rest => (none, rest.noSlots)

/-- Puts the value beside a key into its slot; `none` if no field has the key. -/
def place {αs : List Type} (fs : Fields αs) (standing : Standing) (key : String) (d : Draft) :
    Slots αs → Option (Except ReadFault (Slots αs)) :=
  match fs with
  | nil => fun _ => none
  | cons field rest => fun (slot, slots) =>
    if field.key = key then
      some <|
        if slot.isSome then .error (.mismatch (.duplicateField key))
        else (field.decode standing d).map fun a => (some a, slots)
    else (rest.place standing key d slots).map fun placed => placed.map fun slots => (slot, slots)

/-- Reads members in their order. -/
def collect {αs : List Type} (fs : Fields αs) (standing : Standing) :
    List (DraftKey × Draft) → Slots αs → Except ReadFault (Slots αs)
  | [], slots => .ok slots
  | (key, d) :: ms, slots => do
    let key ← Decoder.syntactic key.text?
    match fs.place standing key d slots with
    | some placed => fs.collect standing ms (← placed)
    | none =>
      Decoder.syntactic d.skip
      fs.collect standing ms slots

/-- The values once all members are read. -/
def finish : {αs : List Type} → Fields αs → Slots αs → Except ReadFault (Values αs)
  | _, nil, _ => .ok ()
  | _, cons field rest, (slot, slots) => do
    match slot <|> field.absent with
    | some a => return (a, ← rest.finish slots)
    | none => .error (.mismatch (.missingField field.key))

/-- Reads the fields from items in their order; the items that are left over are returned. -/
def fromItems {αs : List Type} (fs : Fields αs) (standing : Standing) (expected : String)
    (position : Nat) (xs : List Draft) (ending : Ending) :
    Except ReadFault (Values αs × List Draft) :=
  match fs, xs with
  | nil, xs => .ok ((), xs)
  | cons field rest, [] => do
    Decoder.syntactic ending.ofArray
    match field.absent with
    | some a =>
      let (values, left) ← rest.fromItems standing expected (position + 1) [] ending
      return ((a, values), left)
    | none => .error (.mismatch (.wrongLength position expected))
  | cons field rest, x :: xs => do
    let a ← field.decode standing x
    let (values, left) ← rest.fromItems standing expected (position + 1) xs ending
    return ((a, values), left)

/-- Refuses items that belong to no field.  In a text they stand where the closing bracket
should. -/
def refuseExtra (standing : Standing) (size : Nat) (left : List Draft) (ending : Ending) :
    Except ReadFault Unit :=
  if left.isEmpty then Decoder.syntactic ending.ofFullArray
  else
    match standing with
    | .text _ => .error (.syntaxFault .trailingCharacters)
    | _ => .error (.mismatch (.wrongLength (size + left.length) "fewer elements in array"))

/-- What an array of the fields is expected to be. -/
def lengthText {αs : List Type} (fs : Fields αs) (name : String) : String :=
  name ++ " with " ++ Text.natText fs.size ++ if fs.size = 1 then " element" else " elements"

/-- Reads the fields from members. -/
def fromMembers {αs : List Type} (fs : Fields αs) (standing : Standing)
    (ms : List (DraftKey × Draft)) (ending : Ending) : Except ReadFault (Values αs) := do
  let slots ← fs.collect standing ms fs.noSlots
  Decoder.syntactic ending.ofObject
  fs.finish slots

/-- Reads the fields from an array. -/
def fromArray {αs : List Type} (fs : Fields αs) (standing : Standing) (name : String)
    (xs : List Draft) (ending : Ending) : Except ReadFault (Values αs) := do
  let (values, left) ← fs.fromItems standing (fs.lengthText name) 0 xs ending
  refuseExtra standing fs.size left ending
  return values

/-- Reads a structure, which messages call by the name. -/
def decode {αs : List Type} {β : Type} (name : String) (fs : Fields αs) (build : Values αs → β) :
    Decoder β
  | standing, .object ms ending => do
    let inside ← Decoder.syntactic standing.enter
    let values ← fs.fromMembers inside ms ending
    return build values
  | standing, .array xs ending => do
    let inside ← Decoder.syntactic standing.enter
    let values ← fs.fromArray inside name xs ending
    return build values
  | _, d => Decoder.refuse name d

end Fields

/-! ## Objects that name their own kind

One member of the object, the tag, says of which kind it is and so how the others are to be read.
Since the tag may come last, all members are gathered first; they are read strictly, as nobody can
tell yet which of them are wanted.  In an array the tag is the first item. -/

namespace Decoder

/-- Reads the tag among the members and gathers the others. -/
def gatherMembers {α : Type} (key : String) (choices : List (String × α)) (standing : Standing) :
    Option α → List (DraftKey × Draft) →
    Except ReadFault (Option α × List (DraftKey × Draft))
  | found, [] => .ok (found, [])
  | found, (k, d) :: ms => do
    let name ← syntactic k.text?
    if name = key then
      if found.isSome then .error (.mismatch (.duplicateField key))
      else
        let a ← tag choices standing d
        gatherMembers key choices standing (some a) ms
    else
      let _ ← syntactic (d.value? standing)
      let (a, rest) ← gatherMembers key choices standing found ms
      return (a, (k, d) :: rest)

/-- Reads every item strictly. -/
def gatherItems (standing : Standing) : List Draft → Except ReadFault Unit
  | [] => .ok ()
  | x :: xs => do
    let _ ← syntactic (x.value? standing)
    gatherItems standing xs

/-- An object, or array, that names its kind; `content` reads what is gathered beside the tag. -/
def tagged {α β : Type} (key : String) (choices : List (String × α)) (expected : String)
    (content : α → Decoder β) : Decoder β
  | standing, .object ms ending => do
    let inside ← syntactic standing.enter
    let (found, rest) ← gatherMembers key choices inside none ms
    syntactic ending.ofObject
    match found with
    | some a => content a .gathered (.object rest .closed)
    | none => .error (.mismatch (.missingField key))
  | standing, .array xs ending => do
    let inside ← syntactic standing.enter
    match xs with
    | [] =>
      syntactic ending.ofArray
      .error (.mismatch (.missingField key))
    | x :: xs =>
      let a ← tag choices inside x
      gatherItems inside xs
      syntactic ending.ofArray
      content a .gathered (.array xs .closed)
  | _, d => refuse expected d

end Decoder

end MappingGraph
