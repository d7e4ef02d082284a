import KconfigLang.Tree.Expr
import KconfigLang.Value

/-!
# Evaluation

The value of an expression, given the values of its symbols. A symbol without a value is `n`. Conjunction,
disjunction and negation are those of tristates; comparisons order tristates by `n < m < y` and strings by
`compareText`.

- `Checking`: whether operands of the wrong kind are converted or refused.
- `eval`: the value of an expression.
- `evalTristate`: the value of an expression as a condition.
-/

namespace KconfigLang

/-- How operands of the wrong kind are treated. -/
inductive Checking where
  /-- A string in place of a tristate is `n` unless it spells one; mixed comparisons compare spellings. -/
  | lenient
  /-- Mixing tristates and strings is an error. -/
  | strict
  deriving DecidableEq, Repr, Inhabited

/-- What asks for a tristate. -/
inductive Demand where
  | condition
  | negation
  | operator (op : BinaryOp)
  deriving DecidableEq, Repr, Inhabited

/-- How a message calls what asks for a tristate. -/
def Demand.text : Demand → String
  | condition => "condition"
  | negation => "!"
  | operator op => op.text

/-- A string where a tristate is needed. -/
structure TypeMismatch where
  /-- What asks for a tristate. -/
  demand : Demand
  /-- The operand that is a string. -/
  span : Span
  deriving DecidableEq, Repr, Inhabited

namespace TypeMismatch

/-- The kind that is needed. -/
def expected : String := "tristate"

/-- The kind that was found. -/
def found : String := "string"

/-- The message of a mismatch, with its position. -/
def message (e : TypeMismatch) : String :=
  e.span.text ++ ": type mismatch in '" ++ e.demand.text ++ "': expected " ++ expected ++ ", found " ++ found

end TypeMismatch

/-! ## Operands -/

/-- A value where a tristate is needed. -/
def Checking.tristate (check : Checking) (demand : Demand) (span : Span) : Value →
    Except TypeMismatch Tristate
  | .tristate t => .ok t
  | .string s =>
    match check with
    | .lenient => .ok (Value.string s).toTristate
    | .strict => .error ⟨demand, span⟩

/-- Whether an order of two operands is the one that a comparison asks for. -/
def BinaryOp.holds : BinaryOp → Ordering → Bool
  | equal, o => o == .eq
  | notEqual, o => o != .eq
  | less, o => o == .lt
  | lessEqual, o => o != .gt
  | greater, o => o == .gt
  | greaterEqual, o => o != .lt
  | and, _ | or, _ => false

/-- The order of two values, which stand at the given spans. -/
def Checking.compare (check : Checking) (op : BinaryOp) (lspan rspan : Span) :
    Value → Value → Except TypeMismatch Ordering
  | .tristate a, .tristate b => .ok (a.compare b)
  | .string a, .string b => .ok (compareText a b)
  | .tristate a, .string b =>
    match check with
    | .lenient => .ok (compareText a.text b)
    | .strict => .error ⟨.operator op, rspan⟩
  | .string a, .tristate b =>
    match check with
    | .lenient => .ok (compareText a b.text)
    | .strict => .error ⟨.operator op, lspan⟩

/-! ## Expressions -/

/-- The value of an expression; `lookup` gives the values of symbols. -/
def eval (check : Checking) (lookup : String → Option Value) : Expr → Except TypeMismatch Value
  | .symbol id => .ok ((lookup id.name).getD (.tristate .no))
  | .bool value _ => .ok (.tristate (.ofBool value))
  | .tristate value _ => .ok (.tristate value)
  | .int value _ => .ok (.string (toString value))
  | .hex value _ => .ok (.string (Text.hexText value))
  | .string lit => .ok (.string lit.value)
  | .not operand _ => do
    let a ← check.tristate .negation operand.span (← eval check lookup operand)
    return .tristate a.not
  | .binary lhs op rhs _ =>
    match op with
    | .and => do
      let a ← check.tristate (.operator .and) lhs.span (← eval check lookup lhs)
      let b ← check.tristate (.operator .and) rhs.span (← eval check lookup rhs)
      return .tristate (a.and b)
    | .or => do
      let a ← check.tristate (.operator .or) lhs.span (← eval check lookup lhs)
      let b ← check.tristate (.operator .or) rhs.span (← eval check lookup rhs)
      return .tristate (a.or b)
    | op => do
      let a ← eval check lookup lhs
      let b ← eval check lookup rhs
      let order ← check.compare op lhs.span rhs.span a b
      return .tristate (.ofBool (op.holds order))

/-- The value of an expression as a condition. -/
def evalTristate (check : Checking) (lookup : String → Option Value) (e : Expr) :
    Except TypeMismatch Tristate := do
  check.tristate .condition e.span (← eval check lookup e)

end KconfigLang
