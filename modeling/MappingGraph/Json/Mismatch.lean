import MappingGraph.Json.Draft
import MappingGraph.Text.Quoted

/-!
# Values of the wrong shape

`Mismatch` says how a well-formed value fails to be what is expected, and `ReadFault` joins it with
the faults of syntax.  Each has one wording.  Of a mismatch, `finding` is the part that tells what
was found, and `message` adds what was expected instead where the two are separate.
-/

set_option autoImplicit false

namespace MappingGraph

/-- What was found where something else was expected. -/
inductive Found where
  | null
  | bool (value : Bool)
  | number (value : Number)
  | string (value : String)
  | sequence
  | map
deriving DecidableEq, Repr

namespace Found

def text : Found → String
  | null => "null"
  | bool true => "boolean `true`"
  | bool false => "boolean `false`"
  | number (.integer i) => "integer `" ++ Text.intText i ++ "`"
  | number (.fractional x) => "floating point `" ++ x.text ++ "`"
  | string s => "string " ++ Text.quotedForMessage s
  | sequence => "sequence"
  | map => "map"

end Found

/-- Why a well-formed value is not of the expected shape. -/
inductive Mismatch where
  | wrongType (found : Found) (expected : String)
  | wrongValue (found : Found) (expected : String)
  | wrongLength (length : Nat) (expected : String)
  | missingField (key : String)
  | duplicateField (key : String)
  | unknownVariant (name : String) (allowed : List String)
deriving DecidableEq, Repr

namespace Mismatch

/-- A choice of names in words. -/
def choiceText : List String → String
  | [] => "there are no variants"
  | [a] => "expected `" ++ a ++ "`"
  | [a, b] => "expected `" ++ a ++ "` or `" ++ b ++ "`"
  | names => "expected one of " ++ String.intercalate ", " (names.map fun n => "`" ++ n ++ "`")

/-- What is wrong with the value. -/
def finding : Mismatch → String
  | wrongType found _ => "invalid type: " ++ found.text
  | wrongValue found _ => "invalid value: " ++ found.text
  | wrongLength n _ => "invalid length " ++ Text.natText n
  | missingField key => "missing field `" ++ key ++ "`"
  | duplicateField key => "duplicate field `" ++ key ++ "`"
  | unknownVariant name allowed => "unknown variant `" ++ name ++ "`, " ++ choiceText allowed

/-- What was expected instead, unless `finding` tells it. -/
def expectation? : Mismatch → Option String
  | wrongType _ expected | wrongValue _ expected | wrongLength _ expected => some expected
  | missingField _ | duplicateField _ | unknownVariant _ _ => none

/-- The whole message. -/
def message (m : Mismatch) : String :=
  match m.expectation? with
  | some expected => m.finding ++ ", expected " ++ expected
  | none => m.finding

end Mismatch

/-- Why a value could not be read from a text or from another value. -/
inductive ReadFault where
  | syntaxFault (fault : SyntaxFault)
  | mismatch (mismatch : Mismatch)
deriving DecidableEq, Repr

namespace ReadFault

def message : ReadFault → String
  | syntaxFault fault => fault.message
  | mismatch m => m.message

end ReadFault

end MappingGraph
