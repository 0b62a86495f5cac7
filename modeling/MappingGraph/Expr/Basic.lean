import MappingGraph.Json.Basic

/-!
# Expressions

The portable expressions that a mapping compiles to.  A leaf is a literal, a field of the source or
a reference, and the type of references tells the two stages apart:

* `BuiltExpr` refers to other nodes of the graph by `Placeholder`;
* `Expression` refers to shared values by `SharedRef`, node and variable name together.

`mapRefs` puts an expression in the place of every reference and is the only way from the one to the
other; `mapRefsM` does the same with an effect, met from left to right.  `refs` lists the references
in that order.  `cost` measures how much there is to evaluate.
-/

set_option autoImplicit false

namespace MappingGraph

/-- The operators with two operands. -/
inductive BinaryOp where
  | add
  | subtract
  | multiply
  | divide
  | modulo
  | power
  | equal
  | notEqual
  | lessThan
  | lessThanOrEqual
  | greaterThan
  | greaterThanOrEqual
  | and
  | or
  | concat
deriving DecidableEq, Repr, Inhabited

namespace BinaryOp

/-- The names of the operators in their order. -/
def names : List (String × BinaryOp) :=
  [("add", add), ("subtract", subtract), ("multiply", multiply), ("divide", divide),
   ("modulo", modulo), ("power", power), ("equal", equal), ("notEqual", notEqual),
   ("lessThan", lessThan), ("lessThanOrEqual", lessThanOrEqual), ("greaterThan", greaterThan),
   ("greaterThanOrEqual", greaterThanOrEqual), ("and", and), ("or", or), ("concat", concat)]

def name : BinaryOp → String
  | add => "add"
  | subtract => "subtract"
  | multiply => "multiply"
  | divide => "divide"
  | modulo => "modulo"
  | power => "power"
  | equal => "equal"
  | notEqual => "notEqual"
  | lessThan => "lessThan"
  | lessThanOrEqual => "lessThanOrEqual"
  | greaterThan => "greaterThan"
  | greaterThanOrEqual => "greaterThanOrEqual"
  | and => "and"
  | or => "or"
  | concat => "concat"

end BinaryOp

/-- The operators with one operand. -/
inductive UnaryOp where
  | not
  | negate
  | abs
  | ceil
  | floor
  | round
  | sqrt
deriving DecidableEq, Repr, Inhabited

namespace UnaryOp

/-- The names of the operators in their order. -/
def names : List (String × UnaryOp) :=
  [("not", not), ("negate", negate), ("abs", abs), ("ceil", ceil), ("floor", floor),
   ("round", round), ("sqrt", sqrt)]

def name : UnaryOp → String
  | not => "not"
  | negate => "negate"
  | abs => "abs"
  | ceil => "ceil"
  | floor => "floor"
  | round => "round"
  | sqrt => "sqrt"

end UnaryOp

/-- The type that a literal is marked with. -/
inductive LiteralType where
  | string
  | integer
  | number
  | boolean
  | null
  | array
  | object
deriving DecidableEq, Repr, Inhabited

namespace LiteralType

/-- The names of the types in their order. -/
def names : List (String × LiteralType) :=
  [("string", string), ("integer", integer), ("number", number), ("boolean", boolean),
   ("null", null), ("array", array), ("object", object)]

def name : LiteralType → String
  | string => "string"
  | integer => "integer"
  | number => "number"
  | boolean => "boolean"
  | null => "null"
  | array => "array"
  | object => "object"

/-- The type of a value. -/
def of : Json → LiteralType
  | .null => null
  | .bool _ => boolean
  | .number (.integer _) => integer
  | .number (.fractional _) => number
  | .string _ => string
  | .array _ => array
  | .object _ => object

end LiteralType

/-- An expression with references of some type. -/
inductive Expr (ρ : Type) where
  | literal (value : Json) (type : LiteralType)
  | field (path : String)
  | binary (op : BinaryOp) (left right : Expr ρ)
  | unary (op : UnaryOp) (operand : Expr ρ)
  | call (function : String) (args : List (Expr ρ)) (config : Option Json)
  | conditional (condition yes no : Expr ρ)
  | array (elements : List (Expr ρ))
  | object (entries : List (String × Expr ρ))
  | reference (target : ρ)
deriving Repr, Inhabited

/-- A reference to the value of a node, not yet decided upon. -/
structure Placeholder where
  node : String
deriving DecidableEq, Repr, Inhabited

/-- A reference to a shared value. -/
structure SharedRef where
  node : String
  varName : String
deriving DecidableEq, Repr, Inhabited

/-- An expression as a node builds it. -/
abbrev BuiltExpr := Expr Placeholder

/-- An expression of the compiled output. -/
abbrev Expression := Expr SharedRef

namespace Expr

variable {ρ σ : Type}

/-- A literal marked with the type of its value. -/
def ofJson (value : Json) : Expr ρ := literal value (LiteralType.of value)

/-- A string literal. -/
def string (s : String) : Expr ρ := literal (.string s) .string

/-- The null literal. -/
def null : Expr ρ := literal .null .null

/-- Whether the expression is a literal whose value is null, however it is marked. -/
def isNullLiteral : Expr ρ → Bool
  | literal .null _ => true
  | _ => false

/-- The expression with another in the place of every reference, computed with an effect. -/
def mapRefsM {m : Type → Type} [Monad m] (f : ρ → m (Expr σ)) : Expr ρ → m (Expr σ)
  | literal value type => pure (literal value type)
  | field path => pure (field path)
  | binary op left right => do
    let l ← left.mapRefsM f
    let r ← right.mapRefsM f
    return binary op l r
  | unary op operand => do
    let x ← operand.mapRefsM f
    return unary op x
  | call function args config => do
    let xs ← mapListM f args
    return call function xs config
  | conditional condition yes no => do
    let c ← condition.mapRefsM f
    let y ← yes.mapRefsM f
    let n ← no.mapRefsM f
    return conditional c y n
  | array elements => do
    let xs ← mapListM f elements
    return array xs
  | object entries => do
    let es ← mapEntriesM f entries
    return object es
  | reference target => f target
where
  mapListM {m : Type → Type} [Monad m] (f : ρ → m (Expr σ)) : List (Expr ρ) → m (List (Expr σ))
    | [] => pure []
    | x :: xs => do
      let y ← x.mapRefsM f
      let ys ← mapListM f xs
      return y :: ys
  mapEntriesM {m : Type → Type} [Monad m] (f : ρ → m (Expr σ)) :
      List (String × Expr ρ) → m (List (String × Expr σ))
    | [] => pure []
    | (key, x) :: es => do
      let y ← x.mapRefsM f
      let ys ← mapEntriesM f es
      return (key, y) :: ys

/-- The expression with another in the place of every reference. -/
def mapRefs (f : ρ → Expr σ) : Expr ρ → Expr σ
  | literal value type => literal value type
  | field path => field path
  | binary op left right => binary op (left.mapRefs f) (right.mapRefs f)
  | unary op operand => unary op (operand.mapRefs f)
  | call function args config => call function (mapList f args) config
  | conditional condition yes no =>
    conditional (condition.mapRefs f) (yes.mapRefs f) (no.mapRefs f)
  | array elements => array (mapList f elements)
  | object entries => object (mapEntries f entries)
  | reference target => f target
where
  mapList (f : ρ → Expr σ) : List (Expr ρ) → List (Expr σ)
    | [] => []
    | x :: xs => x.mapRefs f :: mapList f xs
  mapEntries (f : ρ → Expr σ) : List (String × Expr ρ) → List (String × Expr σ)
    | [] => []
    | (key, x) :: es => (key, x.mapRefs f) :: mapEntries f es

/-- The references from left to right. -/
def refs : Expr ρ → List ρ
  | literal _ _ | field _ => []
  | binary _ left right => left.refs ++ right.refs
  | unary _ operand => operand.refs
  | call _ args _ => refsOfList args
  | conditional condition yes no => condition.refs ++ yes.refs ++ no.refs
  | array elements => refsOfList elements
  | object entries => refsOfEntries entries
  | reference target => [target]
where
  refsOfList : List (Expr ρ) → List ρ
    | [] => []
    | x :: xs => x.refs ++ refsOfList xs
  refsOfEntries : List (String × Expr ρ) → List ρ
    | [] => []
    | (_, x) :: es => x.refs ++ refsOfEntries es

/-- How much there is to evaluate: one for a leaf, something for each operation on top of its
operands, and of two branches the dearer. -/
def cost : Expr ρ → Nat
  | literal _ _ | field _ | reference _ => 1
  | binary _ left right => 2 + left.cost + right.cost
  | unary _ operand => 2 + operand.cost
  | call _ args _ => 3 + costOfList args
  | conditional condition yes no => 3 + condition.cost + max yes.cost no.cost
  | array elements => 2 + costOfList elements
  | object entries => 2 + costOfEntries entries
where
  costOfList : List (Expr ρ) → Nat
    | [] => 0
    | x :: xs => x.cost + costOfList xs
  costOfEntries : List (String × Expr ρ) → Nat
    | [] => 0
    | (_, x) :: es => x.cost + costOfEntries es

end Expr

end MappingGraph
