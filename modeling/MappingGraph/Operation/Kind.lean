/-!
# Kinds of operations

Every node of a mapping graph has a kind, which says what it computes.  A document names kinds by
text; a name that is not in the table is kept as it is, so that a document passes through unchanged.
-/

set_option autoImplicit false

namespace MappingGraph

/-- What a node computes. -/
inductive Kind where
  | add
  | subtract
  | multiply
  | divide
  | modulo
  | power
  | equal
  | notEqual
  | lessThan
  | lessThanOrEqual
  | greaterThan
  | greaterThanOrEqual
  | and
  | or
  | not
  | negate
  | abs
  | ceil
  | floor
  | round
  | sqrt
  | concat
  | uppercase
  | lowercase
  | trim
  | length
  | substring
  | replace
  | split
  | join
  | template
  | conditional
  | defaultValue
  | switch
  | count
  | sum
  | average
  | min
  | max
  | first
  | last
  | distinct
  | flatten
  | sort
  | reverse
  | toString
  | toNumber
  | toInteger
  | toBoolean
  | now
  | formatDate
  | parseDate
  | addDays
  | dateDiff
  | constant
  | customFunction
  /-- A name that is not in the table. -/
  | unknown (name : String)
deriving DecidableEq, Repr, Inhabited

namespace Kind

/-- The known kinds in the order of the table. -/
def all : List Kind :=
  [add, subtract, multiply, divide, modulo, power, equal, notEqual, lessThan, lessThanOrEqual,
   greaterThan, greaterThanOrEqual, and, or, not, negate, abs, ceil, floor, round, sqrt, concat,
   uppercase, lowercase, trim, length, substring, replace, split, join, template, conditional,
   defaultValue, switch, count, sum, average, min, max, first, last, distinct, flatten, sort,
   reverse, toString, toNumber, toInteger, toBoolean, now, formatDate, parseDate, addDays,
   dateDiff, constant, customFunction]

/-- The name of a kind in a document. -/
def name : Kind → String
  | add => "add"
  | subtract => "subtract"
  | multiply => "multiply"
  | divide => "divide"
  | modulo => "modulo"
  | power => "power"
  | equal => "equal"
  | notEqual => "notEqual"
  | lessThan => "lessThan"
  | lessThanOrEqual => "lessThanOrEqual"
  | greaterThan => "greaterThan"
  | greaterThanOrEqual => "greaterThanOrEqual"
  | and => "and"
  | or => "or"
  | not => "not"
  | negate => "negate"
  | abs => "abs"
  | ceil => "ceil"
  | floor => "floor"
  | round => "round"
  | sqrt => "sqrt"
  | concat => "concat"
  | uppercase => "uppercase"
  | lowercase => "lowercase"
  | trim => "trim"
  | length => "length"
  | substring => "substring"
  | replace => "replace"
  | split => "split"
  | join => "join"
  | template => "template"
  | conditional => "if"
  | defaultValue => "defaultValue"
  | switch => "switch"
  | count => "count"
  | sum => "sum"
  | average => "average"
  | min => "min"
  | max => "max"
  | first => "first"
  | last => "last"
  | distinct => "distinct"
  | flatten => "flatten"
  | sort => "sort"
  | reverse => "reverse"
  | toString => "toString"
  | toNumber => "toNumber"
  | toInteger => "toInteger"
  | toBoolean => "toBoolean"
  | now => "now"
  | formatDate => "formatDate"
  | parseDate => "parseDate"
  | addDays => "addDays"
  | dateDiff => "dateDiff"
  | constant => "constant"
  | customFunction => "customFunction"
  | unknown name => name

/-- The kind with a name. -/
def ofName (name : String) : Kind :=
  (all.find? (·.name = name)).getD (unknown name)

def isUnknown : Kind → Bool
  | unknown _ => true
  | _ => false

/-- Whether two evaluations of the kind give the same, so that one will do.  The clock must be read
at every use, and of a function defined elsewhere nothing is known. -/
def isPureByDefault : Kind → Bool
  | now | customFunction | unknown _ => false
  | _ => true

end Kind

end MappingGraph
