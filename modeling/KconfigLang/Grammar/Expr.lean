import KconfigLang.Grammar.Reader

/-!
# The grammar of expressions

```
expression  = conjunction { "||" conjunction }
conjunction = comparison { "&&" comparison }
comparison  = unary [ ("=" | "!=" | "<" | "<=" | ">" | ">=") unary ]
unary       = "!" unary | literal | symbol | "(" expression ")"
```

Both connectives group to the left and comparisons do not chain.
-/

namespace KconfigLang.Grammar

open Reader

/-- A symbol name. -/
def symbol : Reader Ident :=
  labelled .symbol <| withSpan <| oneOf fun
    | .ident name => some (Ident.mk name)
    | _ => none

/-- A string literal. -/
def string : Reader StringNode :=
  labelled .string <| withSpan <| oneOf fun
    | .string value raw => some (StringNode.mk value raw)
    | _ => none

/-- A literal. The letters `y` and `n` are stored as bare ones and `m` as a tristate. -/
def literal : Reader Expr :=
  labelled .literal <| withSpan <| oneOf fun
    | .tristate .yes => some (Expr.bool true)
    | .tristate .no => some (Expr.bool false)
    | .tristate .module => some (Expr.tristate .module)
    | .number value => some (Expr.int value)
    | .hexNumber value => some (Expr.hex value)
    | .string value raw => some fun span => Expr.string ⟨value, raw, span⟩
    | _ => none

/-- A comparison operator. -/
def comparisonOp : Reader BinaryOp :=
  oneOf fun
    | .mark .equal => some .equal
    | .mark .notEqual => some .notEqual
    | .mark .less => some .less
    | .mark .lessEqual => some .lessEqual
    | .mark .greater => some .greater
    | .mark .greaterEqual => some .greaterEqual
    | _ => none

/-- An expression in parentheses. -/
def parenthesised (inner : Reader Expr) : Reader Expr := do
  mark .leftParen
  let e ← inner
  mark .rightParen
  return e

/-- A negation of what `operand` reads. -/
def negation (operand : Reader Expr) : Reader Expr :=
  withSpan do
    mark .not
    let e ← operand
    return Expr.not e

/-- An operand with any number of negations; `inner` reads what stands in parentheses. -/
def unary (inner : Reader Expr) : Reader Expr :=
  fix fun self =>
    (negation self).orElse (firstOf [literal, Expr.symbol <$> symbol, parenthesised inner])

/-- One operand or two with a comparison between them. -/
def comparison (operand : Reader Expr) : Reader Expr := do
  let lhs ← operand
  let compared ← optional do
    let op ← comparisonOp
    let rhs ← operand
    return (op, rhs)
  return match compared with
    | none => lhs
    | some (op, rhs) => lhs.join op rhs

/-- Operands with one connective between them, grouped to the left. -/
def chain (sign : Mark) (op : BinaryOp) (operand : Reader Expr) : Reader Expr := do
  let first ← operand
  let more ← many do
    mark sign
    operand
  return more.foldl (·.join op ·) first

/-- An expression, where `inner` reads what stands in parentheses. -/
def disjunction (inner : Reader Expr) : Reader Expr :=
  chain .or .or (chain .and .and (comparison (unary inner)))

/-- An expression. -/
def expression : Reader Expr :=
  labelled .expression (fix disjunction)

/-- An optional condition behind a property. -/
def condition : Reader (Option Expr) :=
  optional do
    keyword .ifCondition
    expression

end KconfigLang.Grammar
