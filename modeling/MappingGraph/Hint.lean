import MappingGraph.Text.Blank

/-!
# Hint names

A label such as `Order Total` suggests a name for a variable, `order_total`: small letters and
digits, with one underscore wherever other characters stood or a capital follows a small letter or
digit.  The name must not begin with a digit, and a label without any letter or digit suggests none.
-/

set_option autoImplicit false

namespace MappingGraph.Hint

/-- A name in the middle of being made. -/
structure State where
  /-- The characters of the name so far, the latest first. -/
  reversed : List Char := []
  /-- Whether the latest character was a small letter or digit of the label. -/
  afterLower : Bool := false

/-- Takes the next character of the label. -/
def step (s : State) (c : Char) : State :=
  if c.isUpper then
    ⟨c.toLower :: (if s.afterLower then '_' :: s.reversed else s.reversed), false⟩
  else if c.isAlphanum then ⟨c :: s.reversed, true⟩
  else if !s.reversed.isEmpty && s.reversed.head? != some '_' then ⟨'_' :: s.reversed, false⟩
  else s

/-- The name without a digit at its start; `none` if nothing is left. -/
def finish : List Char → Option String
  | [] => none
  | c :: cs => some (String.ofList (if c.isDigit then '_' :: c :: cs else c :: cs))

/-- The name that a label suggests. -/
def ofLabel? (label : String) : Option String :=
  let s := (Text.trimChars label.toList).foldl step {}
  finish (s.reversed.dropWhile (· = '_')).reverse

end MappingGraph.Hint
