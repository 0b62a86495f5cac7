import MappingGraph.Json.Basic
import MappingGraph.Settings.Value
import MappingGraph.Yaml.Layout

/-!
# The nodes of YAML

`Node.ofText?` reads the one document of a text as a tree of nodes.  What a plain scalar stands for
follows from its text or its tag; every other scalar is a string.  A node may have a name, and an
alias stands for the node that has the name; inside of that node itself it stands for nothing, and
such a node is not fit to be a key.

A missing node, as after a colon at the end of a line, is null.
-/

set_option autoImplicit false

namespace MappingGraph.Yaml

/-- A node. -/
inductive Node where
  | null
  | bool (value : Bool)
  | integer (value : Int)
  /-- A number with a fraction, as it is written. -/
  | real (text : String)
  | text (value : String)
  | list (items : List Node)
  | map (entries : List (Node × Node))
  /-- What stands for nothing. -/
  | unfit
deriving Repr, Inhabited

namespace Node

/-! ## Scalars -/

/-- An integer of 64 bits with a sign. -/
def integerOf? (s : String) : Option Int :=
  Text.integerWithin? Number.minInteger Number.maxSigned s

/-- An integer in base 8 or 16, in which a sign may stand behind the prefix. -/
def radixOf? (base : Nat) (cs : List Char) : Option Int :=
  let (negative, digits) := match cs with
    | '-' :: cs => (true, cs)
    | '+' :: cs => (false, cs)
    | cs => (false, cs)
  let n := Text.radixValue base digits
  let i : Int := if negative then -n else n
  if !digits.isEmpty && digits.all (fun c => (Text.hexValue? c).any (· < base)) &&
      Number.minInteger ≤ i && i ≤ Number.maxSigned then some i
  else none

/-- The words for numbers that are not finite. -/
def specialReals : List String :=
  [".inf", ".Inf", ".INF", "+.inf", "+.Inf", "+.INF", "-.inf", "-.Inf", "-.INF", ".nan", "NaN",
    ".NAN"]

def isReal (s : String) : Bool := s ∈ specialReals || (Real.ofText? s).isSome

/-- The integer that a text with a prefix or a plus sign denotes. -/
def prefixedOf? (s : String) : Option Int :=
  match s.toList with
  | '0' :: 'x' :: cs => radixOf? 16 cs
  | '0' :: 'o' :: cs => radixOf? 8 cs
  | '+' :: cs => integerOf? (String.ofList cs)
  | _ => none

/-- What a plain scalar without a tag stands for. -/
def ofPlain (s : String) : Node :=
  match prefixedOf? s with
  | some i => integer i
  | none =>
    if s = "~" || s = "null" then null
    else if s = "true" then bool true
    else if s = "false" then bool false
    else
      match integerOf? s with
      | some i => integer i
      | none => if isReal s then real s else text s

/-- What the handle of the tags of the standard stands for. -/
def standardBase : String := "tag:yaml.org,2002:"

/-- What a plain scalar with a tag of the standard stands for. -/
def ofTagged (suffix s : String) : Node :=
  if suffix = "bool" then
    if s = "true" then bool true else if s = "false" then bool false else unfit
  else if suffix = "int" then
    match integerOf? s with
    | some i => integer i
    | none => unfit
  else if suffix = "float" then (if isReal s then real s else unfit)
  else if suffix = "null" then (if s = "~" || s = "null" then null else unfit)
  else text s

/-- What a scalar stands for. -/
def ofScalar (plain : Bool) (tag : Option (String × String)) (s : String) : Node :=
  if !plain then text s
  else
    match tag with
    | some (base, suffix) => if base = standardBase then ofTagged suffix s else text s
    | none => ofPlain s

def isUnfit : Node → Bool
  | unfit => true
  | _ => false

/-- Pairs keys and values that stand in a row.  An unfit node is passed over where a key belongs. -/
def pairUp : List Node → List (Node × Node)
  | [] => []
  | key :: rest =>
    if key.isUnfit then pairUp rest
    else
      match rest with
      | value :: rest => (key, value) :: pairUp rest
      | [] => []

/-! ## Reading nodes from tokens -/

/-- The tokens that are left, and the nodes with names.  A name belongs to the last node that was
given it, and the node is known once it is complete. -/
structure Progress where
  tokens : List Token
  names : List (String × Nat) := []
  nodes : List (Nat × Node) := []
  nextId : Nat := 0
  /-- The handles of tags that were declared, with what they stand for. -/
  handles : List (String × String) := []

namespace Progress

/-- Whether the next token is one of some. -/
def isNext (p : Progress) (ts : List Token) : Bool := p.tokens.head?.any (· ∈ ts)

def skip (p : Progress) : Progress := { p with tokens := p.tokens.drop 1 }

/-- Passes over the comma that stands before every item in brackets but the first. -/
def skipComma? (p : Progress) (first : Bool) : Option Progress :=
  if first then some p else if p.isNext [.flowEntry] then some p.skip else none

/-- The node that an alias stands for. -/
def resolve? (p : Progress) (name : String) : Option Node := do
  let id ← p.names.lookup name
  return (p.nodes.lookup id).getD unfit

/-- A tag with what its handle stands for.  Only a handle that is a word has to be declared. -/
def resolveTag? (p : Progress) (handle suffix : String) : Option (String × String) :=
  match p.handles.lookup handle with
  | some base => some (base, suffix)
  | none =>
    if handle = "!!" then some (standardBase, suffix)
    else if 2 ≤ handle.length then none
    else some (handle, suffix)

/-- Gives a name to the node that comes next. -/
def register (p : Progress) (name : String) : Progress :=
  { p.skip with names := (name, p.nextId) :: p.names, nextId := p.nextId + 1 }

/-- Reads the name and the tag before a node, in either order. -/
def readProperties? (p : Progress) :
    Option (Option Nat × Option (String × String) × Progress) := do
  match p.tokens with
  | .anchor name :: .tag handle suffix :: _ =>
    return (some p.nextId, some (← p.resolveTag? handle suffix), (p.register name).skip)
  | .anchor name :: _ => return (some p.nextId, none, p.register name)
  | .tag handle suffix :: .anchor name :: _ =>
    return (some p.nextId, some (← p.resolveTag? handle suffix), p.skip.register name)
  | .tag handle suffix :: _ => return (none, some (← p.resolveTag? handle suffix), p.skip)
  | _ => return (none, none, p)

/-- Keeps a node for its aliases. -/
def keep (p : Progress) (id : Option Nat) (node : Node) : Progress :=
  { p with nodes := id.toList.map (fun i => (i, node)) ++ p.nodes }

end Progress

mutual

/-- Reads a node.  Blocks may begin here only if `block` says so, and a row of entries without an
indentation of its own only if `entries` does.  Of any five calls that follow each other one takes
a token. -/
def readNode : (budget : Nat) → (block entries : Bool) → Progress → Option (Node × Progress)
  | 0, _, _, _ => none
  | budget + 1, block, entries, p =>
    match p.tokens with
    | .alias name :: _ => (p.resolve? name).map fun node => (node, p.skip)
    | _ => do
      let (id, tag, p) ← p.readProperties?
      let (node, p) ← readContent budget block entries tag id.isSome p
      return (node, p.keep id node)

/-- Reads what follows the name and the tag of a node, which may be nothing if there are any. -/
def readContent : (budget : Nat) → (block entries : Bool) → (tag : Option (String × String)) →
    (named : Bool) → Progress → Option (Node × Progress)
  | 0, _, _, _, _, _ => none
  | budget + 1, block, entries, tag, named, p => do
    let nothing := if tag.isSome || named then some (ofScalar true tag "", p) else none
    match p.tokens with
    | .scalar plain s :: _ => return (ofScalar plain tag s, p.skip)
    | .flowSequenceStart :: _ =>
      let (xs, p) ← readFlowItems budget true p.skip
      return (list xs, p)
    | .flowMappingStart :: _ =>
      let (xs, p) ← readFlowPairs budget true p.skip
      return (map (pairUp xs), p)
    | .blockEntry :: _ =>
      if entries then
        let (xs, p) ← readEntries budget p
        return (list xs, p)
      else nothing
    | .blockSequenceStart :: _ =>
      if block then
        let (xs, p) ← readBlockItems budget p.skip
        return (list xs, p)
      else nothing
    | .blockMappingStart :: _ =>
      if block then
        let (xs, p) ← readBlockPairs budget p.skip
        return (map (pairUp xs), p)
      else nothing
    | _ => nothing

/-- Reads a node, or null if one of the tokens comes that show that there is none. -/
def readNodeUnless : (budget : Nat) → (stops : List Token) → (block entries : Bool) → Progress →
    Option (Node × Progress)
  | 0, _, _, _, _ => none
  | budget + 1, stops, block, entries, p =>
    if p.isNext stops then some (null, p) else readNode budget block entries p

/-- Reads the entries of a block sequence up to its end. -/
def readBlockItems : (budget : Nat) → Progress → Option (List Node × Progress)
  | 0, _ => none
  | budget + 1, p => do
    match p.tokens with
    | .blockEnd :: _ => return ([], p.skip)
    | .blockEntry :: _ =>
      let (x, p) ← readNodeUnless budget [.blockEntry, .blockEnd] true false p.skip
      let (xs, p) ← readBlockItems budget p
      return (x :: xs, p)
    | _ => none

/-- Reads entries that are not indented, up to the first token that is none. -/
def readEntries : (budget : Nat) → Progress → Option (List Node × Progress)
  | 0, _ => none
  | budget + 1, p => do
    match p.tokens with
    | .blockEntry :: _ =>
      let (x, p) ← readNodeUnless budget [.blockEntry, .key, .value, .blockEnd] true false p.skip
      let (xs, p) ← readEntries budget p
      return (x :: xs, p)
    | _ => return ([], p)

/-- Reads the keys and values of a block mapping up to its end. -/
def readBlockPairs : (budget : Nat) → Progress → Option (List Node × Progress)
  | 0, _ => none
  | budget + 1, p => do
    let stops := [Token.key, .value, .blockEnd]
    if p.isNext [.blockEnd] then return ([], p.skip)
    else if p.isNext [.key, .value] then
      let (k, p) ← if p.isNext [.key] then readNodeUnless budget stops true true p.skip
        else some (null, p)
      let (v, p) ← if p.isNext [.value] then readNodeUnless budget stops true true p.skip
        else some (null, p)
      let (xs, p) ← readBlockPairs budget p
      return (k :: v :: xs, p)
    else none

/-- Reads the keys and values of a mapping in braces up to its end. -/
def readFlowPairs : (budget : Nat) → (first : Bool) → Progress → Option (List Node × Progress)
  | 0, _, _ => none
  | budget + 1, first, p => do
    if p.isNext [.flowMappingEnd] then return ([], p.skip)
    else
      let p ← p.skipComma? first
      let stops := [Token.value, .flowEntry, .flowMappingEnd]
      if p.isNext [.flowMappingEnd] then return ([], p.skip)
      else
        let announced := p.isNext [.key, .value]
        let (k, p) ← if p.isNext [.key] then readNodeUnless budget stops false false p.skip
          else if p.isNext [.value] then some (null, p)
          else readNode budget false false p
        let (v, p) ← if announced && p.isNext [.value] then
            readNodeUnless budget [.flowEntry, .flowMappingEnd] false false p.skip
          else some (null, p)
        let (xs, p) ← readFlowPairs budget false p
        return (k :: v :: xs, p)

/-- Reads the items of a sequence in brackets up to its end.  A key makes a mapping of one pair; if
it is missing, the token that shows this is passed over. -/
def readFlowItems : (budget : Nat) → (first : Bool) → Progress → Option (List Node × Progress)
  | 0, _, _ => none
  | budget + 1, first, p => do
    if p.isNext [.flowSequenceEnd] then return ([], p.skip)
    else
      let p ← p.skipComma? first
      if p.isNext [.flowSequenceEnd] then return ([], p.skip)
      else
        let (x, p) ← if p.isNext [.key] then readSinglePair budget p.skip
          else readNode budget false false p
        let (xs, p) ← readFlowItems budget false p
        return (x :: xs, p)

/-- Reads the only pair of a mapping that is an item of a sequence in brackets. -/
def readSinglePair : (budget : Nat) → Progress → Option (Node × Progress)
  | 0, _ => none
  | budget + 1, p => do
    let (k, p) ← if p.isNext [.value, .flowEntry, .flowSequenceEnd] then some (null, p.skip)
      else readNode budget false false p
    let (v, p) ← if p.isNext [.value] then
        readNodeUnless budget [.flowEntry, .flowSequenceEnd] false false p.skip
      else some (null, p)
    return (map (pairUp [k, v]), p)

end

/-! ## Documents -/

/-- Reads the content of a document after its marker. -/
def readMarked (budget : Nat) (p : Progress) : Option (Node × Progress) :=
  let ended := match p.tokens with
    | [] | .version :: _ | .tagDirective _ _ :: _ | .documentStart :: _ | .documentEnd :: _ => true
    | _ => false
  if ended then some (null, p) else readNode budget true false p

/-- Reads the directives before a document and its marker.  The version may be named once, and only
what the last directive declares is kept. -/
def readDirectives? (versioned : Bool) (p : Progress) : List Token → Option Progress
  | .version :: rest =>
    if versioned then none else readDirectives? true { p with handles := [] } rest
  | .tagDirective handle base :: rest =>
    readDirectives? versioned { p with handles := [(handle, base)] } rest
  | .documentStart :: rest => some { p with tokens := rest }
  | _ => none

/-- Reads the only document of a text.  A text without one stands for an empty mapping. -/
def ofTokens? (tokens : List Token) : Option Node := do
  let budget := 5 * tokens.length + 5
  let tokens := tokens.dropWhile (· = .documentEnd)
  let (node, p) ← match tokens with
    | [] => some (map [], { tokens := [] })
    | .version :: _ | .tagDirective _ _ :: _ | .documentStart :: _ =>
      (readDirectives? false { tokens } tokens).bind (readMarked budget)
    | _ => readNode budget true false { tokens }
  if p.tokens.all (· = .documentEnd) then some node else none

/-- The node that a text gives. -/
def ofText? (s : String) : Option Node := (Token.ofText? s).bind ofTokens?

end Node

end MappingGraph.Yaml
