import MappingGraph.Json.Basic

/-!
# Writing JSON

Two layouts of a value: `compact` puts nothing between the tokens, `pretty` puts each item and each
member on a line of its own, indented by two blanks a level, and leaves an empty array or object on
one line.  Members are written in the order of the list.

In a string the quotation mark, the backslash and the characters below U+0020 are escaped, the
common ones by a letter and the others by four hexadecimal digits.  All else stands for itself.
-/

set_option autoImplicit false

namespace MappingGraph

namespace Json

/-- A character as it stands inside quotation marks. -/
def escaped (c : Char) : List Char :=
  if c = '"' then ['\\', '"']
  else if c = '\\' then ['\\', '\\']
  else if c = '\x08' then ['\\', 'b']
  else if c = '\x0c' then ['\\', 'f']
  else if c = '\n' then ['\\', 'n']
  else if c = '\r' then ['\\', 'r']
  else if c = '\t' then ['\\', 't']
  else if c.toNat < 0x20 then
    ['\\', 'u', '0', '0', Nat.digitChar (c.toNat / 16), Nat.digitChar (c.toNat % 16)]
  else [c]

/-- A text in quotation marks. -/
def quoted (s : String) : String :=
  String.ofList ('"' :: s.toList.flatMap escaped ++ ['"'])

/-- The value without any layout. -/
def compact : Json → String
  | null => "null"
  | bool true => "true"
  | bool false => "false"
  | number n => n.text
  | string s => quoted s
  | array xs => "[" ++ String.intercalate "," (compactItems xs) ++ "]"
  | object ms => "\x7b" ++ String.intercalate "," (compactMembers ms) ++ "\x7d"
where
  compactItems : List Json → List String
    | [] => []
    | x :: xs => x.compact :: compactItems xs
  compactMembers : List (String × Json) → List String
    | [] => []
    | (k, v) :: ms => (quoted k ++ ":" ++ v.compact) :: compactMembers ms

/-- A new line, indented to a level. -/
def newLine (level : Nat) : String :=
  String.ofList ('\n' :: List.replicate (2 * level) ' ')

/-- The parts between two brackets, each on a line of its own. -/
def block (level : Nat) (left right : String) : List String → String
  | [] => left ++ right
  | parts =>
    left ++ newLine (level + 1) ++ String.intercalate ("," ++ newLine (level + 1)) parts ++
      newLine level ++ right

/-- The value laid out from a level on. -/
def prettyAt (level : Nat) : Json → String
  | null => "null"
  | bool true => "true"
  | bool false => "false"
  | number n => n.text
  | string s => quoted s
  | array xs => block level "[" "]" (prettyItems (level + 1) xs)
  | object ms => block level "\x7b" "\x7d" (prettyMembers (level + 1) ms)
where
  prettyItems (level : Nat) : List Json → List String
    | [] => []
    | x :: xs => x.prettyAt level :: prettyItems level xs
  prettyMembers (level : Nat) : List (String × Json) → List String
    | [] => []
    | (k, v) :: ms => (quoted k ++ ": " ++ v.prettyAt level) :: prettyMembers level ms

/-- The value with one item or member a line. -/
def pretty (v : Json) : String := v.prettyAt 0

end Json

end MappingGraph
