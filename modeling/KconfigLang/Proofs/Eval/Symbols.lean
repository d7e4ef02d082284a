import KconfigLang.Env
import KconfigLang.Proofs.Eval.Comparison

/-!
# What evaluation sees of symbols

An expression is evaluated from the values of the symbols that it lists. Lenient evaluation, as long as it does not
order values, sees no more of them than how they are spelled: a tristate, the string of its letter and, for `n`, a
symbol without a value are all one.

- `eval_congr`: evaluation depends on the values of the listed symbols alone.
- `BinaryOp.apply_congr`: an operator that does not order its operands depends on their spellings alone.
- `Expr.value_text_congr`: so does an expression without such operators.
- `eval_symbols` and `eval_spellings`: both, for values and for conditions.
-/

namespace KconfigLang

/-! ## Listed symbols -/

section Symbols

variable {lookup lookup' : String → Option Value} {e : Expr}

/-- Evaluation depends on the values of the listed symbols alone. -/
theorem eval_congr (h : ∀ name ∈ e.symbols, valueOf lookup name = valueOf lookup' name) (check : Checking) :
    eval check lookup e = eval check lookup' e := by
  induction e with
  | symbol id => exact congrArg Except.ok (h id.name (List.mem_singleton_self _))
  | bool | tristate | int | hex | string => rfl
  | not operand s ih => simp only [eval, ih h]
  | binary lhs op rhs s ihl ihr =>
    obtain ⟨hlhs, hrhs⟩ := List.forall_mem_append.mp h
    simp only [eval, ihl hlhs, ihr hrhs]

/-- **Evaluation depends only on the symbols that an expression lists**: environments that agree on them give the
same value or the same error, of either checking, and so they do where the expression is a condition. -/
theorem eval_symbols (h : ∀ name ∈ e.symbols, lookup name = lookup' name) (check : Checking) :
    eval check lookup e = eval check lookup' e ∧ evalTristate check lookup e = evalTristate check lookup' e := by
  have heval : eval check lookup e = eval check lookup' e :=
    eval_congr (fun name hname => congrArg (Option.getD · _) (h name hname)) check
  refine ⟨heval, ?_⟩
  unfold evalTristate
  rw [heval]

end Symbols

/-- The expression `A = "y" && !B`. -/
def matchExpr : Expr :=
  .binary (.binary (.symbol ⟨"A", default⟩) .equal (.string ⟨"y", "\"y\"", default⟩) default) .and
    (.not (.symbol ⟨"B", default⟩) default) default

/-- An environment in which `A` is `y`. -/
def tristateEnv : Env :=
  ⟨[("A", .tristate .yes)]⟩

/-- It is evaluated alike in an environment that has another symbol; strict evaluation fails in both. -/
theorem eval_symbols_matchExpr :
    (∀ name ∈ matchExpr.symbols, tristateEnv.lookup name = (tristateEnv.set "C" (.string "m")).lookup name) ∧
    eval .strict tristateEnv.lookup matchExpr = eval .strict (tristateEnv.set "C" (.string "m")).lookup matchExpr ∧
    evalTristate .strict tristateEnv.lookup matchExpr =
      evalTristate .strict (tristateEnv.set "C" (.string "m")).lookup matchExpr :=
  have h : ∀ name ∈ matchExpr.symbols, tristateEnv.lookup name = (tristateEnv.set "C" (.string "m")).lookup name := by
    decide
  ⟨h, eval_symbols h .strict⟩

/-! ## Spellings -/

theorem Value.toTristate_eq (v : Value) : v.toTristate = (Tristate.ofText? v.text).getD .no := by
  cases v with
  | string s => rfl
  | tristate t => cases t <;> rfl

/-- The operators by which values are ordered. -/
def BinaryOp.orderings : List BinaryOp :=
  [.less, .lessEqual, .greater, .greaterEqual]

/-- The operators in an expression from left to right, with repetitions. -/
def Expr.operators : Expr → List BinaryOp
  | not operand _ => operand.operators
  | binary lhs op rhs _ => lhs.operators ++ op :: rhs.operators
  | _ => []

/-- An operator that does not order its operands depends on their spellings alone. -/
theorem BinaryOp.apply_congr {op : BinaryOp} (hop : op ∉ orderings) {a a' b b' : Value} (ha : a.text = a'.text)
    (hb : b.text = b'.text) : op.apply a b = op.apply a' b' := by
  have hlogic : a.toTristate = a'.toTristate ∧ b.toTristate = b'.toTristate := by
    simp only [Value.toTristate_eq, ha, hb, and_self]
  have hequal : (a.order b == .eq) = (a'.order b' == .eq) := by
    rw [Bool.eq_iff_iff, beq_iff_eq, beq_iff_eq, Value.order_eq_iff_text, Value.order_eq_iff_text, ha, hb]
  cases op with
  | and =>
    show a.toTristate.and b.toTristate = a'.toTristate.and b'.toTristate
    rw [hlogic.1, hlogic.2]
  | or =>
    show a.toTristate.or b.toTristate = a'.toTristate.or b'.toTristate
    rw [hlogic.1, hlogic.2]
  | equal => exact congrArg Tristate.ofBool hequal
  | notEqual => exact congrArg (Tristate.ofBool !·) hequal
  | less | lessEqual | greater | greaterEqual => exact absurd (by decide) hop

section Spellings

variable {lookup lookup' : String → Option Value} {e : Expr}

/-- The spelling of a value depends on those of the symbols, if nothing is ordered. Behind an operator there is no
difference left: a tristate is spelled in one way as a tristate. -/
theorem Expr.value_text_congr (hops : ∀ op ∈ e.operators, op ∉ BinaryOp.orderings)
    (h : ∀ name ∈ e.symbols, (valueOf lookup name).text = (valueOf lookup' name).text) :
    (e.value lookup).text = (e.value lookup').text := by
  induction e with
  | symbol id => exact h id.name (List.mem_singleton_self _)
  | bool | tristate | int | hex | string => rfl
  | not operand s ih =>
    have hoperand := ih hops h
    simp only [value, Value.toTristate_eq, hoperand]
  | binary lhs op rhs s ihl ihr =>
    obtain ⟨hlhs, hrhs⟩ := List.forall_mem_append.mp h
    obtain ⟨hopsl, hops⟩ := List.forall_mem_append.mp hops
    obtain ⟨hop, hopsr⟩ := List.forall_mem_cons.mp hops
    simp only [value, BinaryOp.apply_congr hop (ihl hopsl hlhs) (ihr hopsr hrhs)]

/-- **Lenient evaluation does not tell a tristate from its spelling** where no values are ordered: environments whose
values are spelled alike give values that are spelled alike, and the same tristate where the expression is a
condition. -/
theorem eval_spellings (hops : ∀ op ∈ e.operators, op ∉ BinaryOp.orderings)
    (h : ∀ name ∈ e.symbols, (valueOf lookup name).text = (valueOf lookup' name).text) :
    ∃ v v' t, eval .lenient lookup e = .ok v ∧ eval .lenient lookup' e = .ok v' ∧ v.text = v'.text ∧
      evalTristate .lenient lookup e = .ok t ∧ evalTristate .lenient lookup' e = .ok t := by
  have htext := Expr.value_text_congr hops h
  refine ⟨e.value lookup, e.value lookup', (e.value lookup).toTristate, eval_lenient lookup e,
    eval_lenient lookup' e, htext, evalTristate_lenient lookup e, ?_⟩
  rw [evalTristate_lenient, Value.toTristate_eq, Value.toTristate_eq, htext]

end Spellings

/-- An environment in which `A` and `B` are strings that spell tristates. -/
def letterEnv : Env :=
  ⟨[("A", .string "y"), ("B", .string "n")]⟩

/-- The expression `A = "y" && !B` does not tell whether `A` is `y` or its letter, nor whether `B` has a value. -/
theorem eval_spellings_matchExpr :
    ((∀ op ∈ matchExpr.operators, op ∉ BinaryOp.orderings) ∧
      ∀ name ∈ matchExpr.symbols, (valueOf tristateEnv.lookup name).text = (valueOf letterEnv.lookup name).text) ∧
    ∃ v v' t, eval .lenient tristateEnv.lookup matchExpr = .ok v ∧ eval .lenient letterEnv.lookup matchExpr = .ok v' ∧
      v.text = v'.text ∧ evalTristate .lenient tristateEnv.lookup matchExpr = .ok t ∧
      evalTristate .lenient letterEnv.lookup matchExpr = .ok t :=
  have hops : ∀ op ∈ matchExpr.operators, op ∉ BinaryOp.orderings := by decide
  have h : ∀ name ∈ matchExpr.symbols,
      (valueOf tristateEnv.lookup name).text = (valueOf letterEnv.lookup name).text := by decide
  ⟨⟨hops, h⟩, eval_spellings hops h⟩

/-- Ordering values tells a tristate from its spelling: `n` is less than `m`, but its letter is not. -/
example : (Value.tristate .no).order (.tristate .module) = .lt ∧ (Value.string "n").order (.string "m") = .gt := by
  decide

end KconfigLang
