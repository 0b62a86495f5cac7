import MappingGraph.Toml.Lexer

/-!
# Reading TOML

A TOML text is a sequence of statements: a header opens a table or adds one to an array of tables,
and `key = value` adds to the table that is open.  A table may be made in three ways, and what may
be added to it later depends on which it was:

* by a header of its own, `[a]`: it is complete, and neither a second header nor a dotted key may
  open it again;
* by standing above the table of a header, as `a` does in `[a.b]`: its own header may still come;
* by a dotted key, as `a` does in `a.b = 1`: only dotted keys may add values to it.

A value that is written out, be it an array or a table in braces, is closed.  `Toml.ofText?` answers
with the entries of the outermost table, or `none` if the text has any fault.
-/

set_option autoImplicit false

namespace MappingGraph.Toml

/-! ## Tables in the making -/

/-- How a table came about. -/
inductive Origin where
  | header
  | implied
  | dotted
deriving DecidableEq, Repr

/-- What stands under a key while the text is being read. -/
inductive Item where
  | value (value : Setting)
  | table (origin : Origin) (entries : List (String × Item))
  /-- An array of tables; the last of them is open. -/
  | tables (before : List (List (String × Item))) (last : List (String × Item))
deriving Inhabited

abbrev Entries := List (String × Item)

namespace Item

mutual

/-- The finished value of an item. -/
def toSetting : Item → Setting
  | value v => v
  | table _ entries => .table (entriesToSettings entries)
  | tables before last => .list (tablesToSettings before ++ [.table (entriesToSettings last)])

def entriesToSettings : List (String × Item) → List (String × Setting)
  | [] => []
  | (key, item) :: es => (key, toSetting item) :: entriesToSettings es

def tablesToSettings : List (List (String × Item)) → List Setting
  | [] => []
  | es :: ess => .table (entriesToSettings es) :: tablesToSettings ess

end

end Item

namespace Entries

def item? (key : String) (es : Entries) : Option Item := (List.find? (·.1 = key) es).map (·.2)

def replace (key : String) (item : Item) (es : Entries) : Entries :=
  es.map fun e => if e.1 = key then (key, item) else e

/-- Changes the table at the end of a path.  What is missing on the way is made, and counts as
dotted if the path belongs to a dotted key; such a path may not enter a table that has a header. -/
def modifyAt (dotted : Bool) (change : Origin → Entries → Option Entries) :
    List String → Origin → Entries → Option Entries
  | [], origin, es => change origin es
  | key :: path, _, es =>
    match es.item? key with
    | none =>
      let origin := if dotted then .dotted else .implied
      (modifyAt dotted change path origin []).map fun made => es ++ [(key, .table origin made)]
    | some (.table origin inner) =>
      if dotted && origin = .header then none
      else
        (modifyAt dotted change path origin inner).map fun made =>
          es.replace key (.table origin made)
    | some (.tables before last) =>
      (modifyAt dotted change path .header last).map fun made =>
        es.replace key (.tables before made)
    | some (.value _) => none

/-- Adds a value to a table, which must have come about by dotted keys exactly if one leads to it.
No key may be given twice. -/
def addValue (key : List String) (value : Setting) (origin : Origin) (es : Entries) :
    Option Entries := do
  let name ← key.getLast?
  let path := key.dropLast
  modifyAt true (fun origin es =>
    if decide (origin = .dotted) = path.isEmpty || (es.item? name).isSome then none
    else some (es ++ [(name, .value value)])) path origin es

/-- Opens the table that a header names. -/
def openTable (key : List String) (es : Entries) : Option Entries := do
  let name ← key.getLast?
  modifyAt false (fun _ es =>
    match es.item? name with
    | none => some (es ++ [(name, .table .header [])])
    | some (.table .implied inner) => some (es.replace name (.table .header inner))
    | some _ => none) key.dropLast .header es

/-- Adds a table to the array of tables that a header names. -/
def openNext (key : List String) (es : Entries) : Option Entries := do
  let name ← key.getLast?
  modifyAt false (fun _ es =>
    match es.item? name with
    | none => some (es ++ [(name, .tables [] [])])
    | some (.tables before last) => some (es.replace name (.tables (before ++ [last]) []))
    | some _ => none) key.dropLast .header es

end Entries

/-! ## Values -/

/-- Arrays and tables in braces may be nested to this depth, and a key may have as many parts. -/
def maxDepth : Nat := 79

/-- Reads a key that is not too long. -/
def readPath? (cs : List Char) : Option (List String × List Char) := do
  let (key, rest) ← readKey? (cs.length + 1) cs
  if key.length ≤ maxDepth then some (key, rest) else none

/-- Reads the items of an array up to its closing bracket. -/
def readItems (item : List Char → Option (Setting × List Char)) :
    (budget : Nat) → List Char → Option (List Setting × List Char)
  | 0, _ => none
  | budget + 1, cs => do
    match ← skipLines (cs.length + 1) cs with
    | ']' :: rest => return ([], rest)
    | rest =>
      let (x, rest) ← item rest
      match ← skipLines (rest.length + 1) rest with
      | ',' :: rest =>
        let (xs, rest) ← readItems item budget rest
        return (x :: xs, rest)
      | ']' :: rest => return ([x], rest)
      | _ => none

/-- Reads a key, the equals sign and a value. -/
def readPair (item : List Char → Option (Setting × List Char)) (cs : List Char) :
    Option ((List String × Setting) × List Char) := do
  match ← readPath? cs with
  | (key, '=' :: rest) =>
    let (value, rest) ← item (skipSpace rest)
    return ((key, value), rest)
  | _ => none

/-- Reads the pairs of a table in braces up to its closing brace. -/
def readPairs (item : List Char → Option (Setting × List Char)) :
    (budget : Nat) → Entries → List Char → Option (Entries × List Char)
  | 0, _, _ => none
  | budget + 1, es, cs => do
    let ((key, value), rest) ← readPair item cs
    let es ← es.addValue key value .header
    match skipSpace rest with
    | ',' :: rest => readPairs item budget es rest
    | '\x7d' :: rest => return (es, rest)
    | _ => none

/-- Reads a scalar. -/
def readScalar (cs : List Char) : Option (Setting × List Char) :=
  match cs with
  | '"' :: _ | '\'' :: _ => (readString? cs).map fun (s, rest) => (.text s, rest)
  | _ =>
    let (token, rest) := splitToken cs
    (tokenValue? token).map fun v => (v, rest)

/-- Reads a value that may be nested to a given depth. -/
def readValue : (room : Nat) → List Char → Option (Setting × List Char)
  | 0, cs => readScalar cs
  | room + 1, '[' :: cs => do
    let (xs, rest) ← readItems (readValue room) (cs.length + 1) cs
    return (.list xs, rest)
  | room + 1, '\x7b' :: cs => do
    match skipSpace cs with
    | '\x7d' :: rest => return (.table [], rest)
    | rest =>
      let (es, rest) ← readPairs (readValue room) (cs.length + 1) [] rest
      return (.table (Item.entriesToSettings es), rest)
  | _ + 1, cs => readScalar cs

/-! ## Statements -/

/-- What was read so far: the outermost table, and the path of the table that is open. -/
structure Progress where
  entries : Entries := []
  here : List String := []

namespace Progress

/-- Reads one statement, up to the end of its line. -/
def step (p : Progress) (cs : List Char) : Option (Progress × List Char) := do
  match cs with
  | '[' :: '[' :: rest =>
    match ← readPath? rest with
    | (key, ']' :: ']' :: rest) =>
      return (⟨← p.entries.openNext key, key⟩, ← endOfLine? rest)
    | _ => none
  | '[' :: rest =>
    match ← readPath? rest with
    | (key, ']' :: rest) => return (⟨← p.entries.openTable key, key⟩, ← endOfLine? rest)
    | _ => none
  | _ =>
    let ((key, value), rest) ← readPair (readValue maxDepth) cs
    let entries ← Entries.modifyAt false (fun origin es => es.addValue key value origin)
      p.here .header p.entries
    return (⟨entries, p.here⟩, ← endOfLine? rest)

/-- Reads all statements. -/
def run : (budget : Nat) → Progress → List Char → Option Progress
  | 0, _, _ => none
  | budget + 1, p, cs => do
    match ← skipLines (cs.length + 1) cs with
    | [] => return p
    | rest =>
      let (p, rest) ← p.step rest
      run budget p rest

end Progress

/-- The entries that a text gives. -/
def ofText? (s : String) : Option (List (String × Setting)) :=
  let cs := match s.toList with
    | '\uFEFF' :: cs => cs
    | cs => cs
  (Progress.run (cs.length + 1) {} cs).map fun p => Item.entriesToSettings p.entries

end MappingGraph.Toml
