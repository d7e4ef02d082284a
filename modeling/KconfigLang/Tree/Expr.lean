import KconfigLang.Span
import KconfigLang.Tristate

/-!
# Expressions

The trees of dependency and value expressions. Every node carries its span.

- `Expr.span`: the span of an expression.
- `Expr.binary`: joins two expressions; the span covers both.
- `Expr.tristateLiteral` and `Expr.boolLiteral`: how a bare `y`, `m` or `n` is stored.
- `Expr.symbols`: the names that an expression refers to.
-/

namespace KconfigLang

/-- A symbol name in the text. -/
structure Ident where
  /-- The name. -/
  name : String
  /-- Where it stands. -/
  span : Span
  deriving DecidableEq, Repr, Inhabited

/-- A string literal in the text. -/
structure StringNode where
  /-- What the literal stands for. -/
  value : String
  /-- How it is written, quotes included. -/
  raw : String
  /-- Where it stands. -/
  span : Span
  deriving DecidableEq, Repr, Inhabited

/-- The operators between two operands. -/
inductive BinaryOp where
  | equal
  | notEqual
  | less
  | lessEqual
  | greater
  | greaterEqual
  | and
  | or
  deriving DecidableEq, Repr, Inhabited

/-- How an operator is written. -/
def BinaryOp.text : BinaryOp → String
  | equal => "="
  | notEqual => "!="
  | less => "<"
  | lessEqual => "<="
  | greater => ">"
  | greaterEqual => ">="
  | and => "&&"
  | or => "||"

/-- An expression. -/
inductive Expr where
  | symbol (id : Ident)
  /-- A bare `y` or `n`. -/
  | bool (value : Bool) (span : Span)
  | tristate (value : Tristate) (span : Span)
  | int (value : Int) (span : Span)
  | hex (value : Nat) (span : Span)
  | string (lit : StringNode)
  | not (operand : Expr) (span : Span)
  | binary (lhs : Expr) (op : BinaryOp) (rhs : Expr) (span : Span)
  deriving DecidableEq, Repr, Inhabited

namespace Expr

/-- The span of an expression. -/
def span : Expr → Span
  | symbol id => id.span
  | string lit => lit.span
  | bool _ s | tristate _ s | int _ s | hex _ s | not _ s | binary _ _ _ s => s

/-- Joins two operands; the span covers both of them. -/
def join (lhs : Expr) (op : BinaryOp) (rhs : Expr) : Expr :=
  .binary lhs op rhs (lhs.span.join rhs.span)

/-- Stores a bare `y` or `n` as a tristate literal. -/
def tristateLiteral : Expr → Expr
  | bool value s => .tristate (.ofBool value) s
  | e => e

/-- Stores a tristate literal `y` or `n` as a bare one. -/
def boolLiteral : Expr → Expr
  | tristate .yes s => .bool true s
  | tristate .no s => .bool false s
  | e => e

/-- The names in an expression from left to right, with repetitions. -/
def symbols : Expr → List String
  | symbol id => [id.name]
  | not operand _ => operand.symbols
  | binary lhs _ rhs _ => lhs.symbols ++ rhs.symbols
  | _ => []

end Expr

end KconfigLang
