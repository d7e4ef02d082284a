import KconfigLang.Eval

/-!
# Lenient evaluation

Lenient evaluation refuses nothing: every expression has a value, and the value of an operator goes by the values of
its operands alone.

- `Value.order`: the order of two values of any kinds.
- `Expr.value`: the value of an expression.
- `eval_lenient` and `evalTristate_lenient`: lenient evaluation returns that value, and as a condition its tristate.
-/

namespace KconfigLang

/-- The value of a name; a name without one is `n`. -/
def valueOf (lookup : String → Option Value) (name : String) : Value :=
  (lookup name).getD (.tristate .no)

/-- The order of two values: that of tristates if both are tristates, and otherwise that of their spellings. -/
def Value.order : Value → Value → Ordering
  | .tristate a, .tristate b => a.compare b
  | a, b => compareText a.text b.text

theorem lenient_tristate (demand : Demand) (pos : Span) (v : Value) :
    Checking.lenient.tristate demand pos v = .ok v.toTristate := by
  cases v <;> rfl

theorem lenient_compare (op : BinaryOp) (lpos rpos : Span) (a b : Value) :
    Checking.lenient.compare op lpos rpos a b = .ok (a.order b) := by
  cases a <;> cases b <;> rfl

/-- What an operator makes of the values of its operands. -/
def BinaryOp.apply (op : BinaryOp) (a b : Value) : Tristate :=
  match op with
  | .and => a.toTristate.and b.toTristate
  | .or => a.toTristate.or b.toTristate
  | op => .ofBool (op.holds (a.order b))

variable (lookup : String → Option Value)

/-- The value of an expression where no kinds are checked. -/
def Expr.value : Expr → Value
  | symbol id => valueOf lookup id.name
  | bool value _ => .tristate (.ofBool value)
  | tristate value _ => .tristate value
  | int value _ => .string (toString value)
  | hex value _ => .string (Text.hexText value)
  | string lit => .string lit.value
  | not operand _ => .tristate operand.value.toTristate.not
  | binary lhs op rhs _ => .tristate (op.apply lhs.value rhs.value)

/-- Lenient evaluation always returns a value. -/
theorem eval_lenient (e : Expr) : eval .lenient lookup e = .ok (e.value lookup) := by
  have hok {α β : Type} (v : α) (f : α → Except TypeMismatch β) : (Except.ok v >>= f) = f v := rfl
  induction e with
  | symbol | bool | tristate | int | hex | string => rfl
  | not operand s ih => simp only [eval, ih, hok, lenient_tristate, Expr.value, pure, Except.pure]
  | binary lhs op rhs s ihl ihr =>
    cases op
    all_goals
      simp only [eval, ihl, ihr, hok, lenient_tristate, lenient_compare, Expr.value, BinaryOp.apply, pure, Except.pure]

theorem evalTristate_lenient (e : Expr) :
    evalTristate .lenient lookup e = .ok (e.value lookup).toTristate := by
  rw [evalTristate, eval_lenient]
  exact lenient_tristate .condition e.span (e.value lookup)

end KconfigLang
