import KconfigLang.Proofs.Eval.Lenient

/-!
# Strict and lenient evaluation

Strict evaluation does what lenient evaluation does, and stops at the first operand of the wrong kind. The
places at which operands are looked at form a list, in the order of evaluation; whether one of them is of the
wrong kind is a question about lenient values only.

- `Check`: an operand that has to be a tristate, or two that have to be of one kind.
- `Expr.checks`: the checks of an expression in the order of evaluation.
- `Check.offence?`: the error at a check, by the lenient values of its operands.
- `eval_strict`: strict evaluation is lenient evaluation behind its checks.
- `eval_strict_refines`: when strict evaluation fails, with which error, and what it returns otherwise.
-/

namespace KconfigLang

/-! ## Checks -/

/-- A place where operands of the wrong kind are refused. -/
inductive Check where
  /-- An operand that has to be a tristate. -/
  | operand (demand : Demand) (e : Expr)
  /-- Two operands that have to be of one kind. -/
  | comparison (op : BinaryOp) (lhs rhs : Expr)
  deriving Repr

namespace Expr

/-- The checks that the topmost operator of an expression makes. -/
def ownChecks : Expr → List Check
  | not operand _ => [.operand .negation operand]
  | binary lhs op rhs _ =>
    match op with
    | .and | .or => [.operand (.operator op) lhs, .operand (.operator op) rhs]
    | op => [.comparison op lhs rhs]
  | _ => []

/-- All checks of an expression in the order of evaluation: an operand of `!`, `&&` or `||` is checked right
behind its own checks, and a comparison behind those of both its operands. -/
def checks : Expr → List Check
  | not operand _ => operand.checks ++ [.operand .negation operand]
  | binary lhs op rhs _ =>
    match op with
    | .and | .or =>
      lhs.checks ++ .operand (.operator op) lhs :: (rhs.checks ++ [.operand (.operator op) rhs])
    | op => lhs.checks ++ (rhs.checks ++ [.comparison op lhs rhs])
  | _ => []

/-- The checks of an expression that stands as a condition. -/
def conditionChecks (e : Expr) : List Check :=
  e.checks ++ [.operand .condition e]

/-- An expression and all expressions inside it. -/
def nodes : Expr → List Expr
  | not operand s => not operand s :: operand.nodes
  | binary lhs op rhs s => binary lhs op rhs s :: (lhs.nodes ++ rhs.nodes)
  | e => [e]

/-- The checks of an expression are those of the expressions in it. -/
theorem mem_checks {e : Expr} {c : Check} : c ∈ e.checks ↔ ∃ n ∈ e.nodes, c ∈ n.ownChecks := by
  induction e with
  | symbol | bool | tristate | int | hex | string => simp [checks, nodes, ownChecks]
  | not operand s ih =>
    simp only [checks, nodes, List.mem_append, List.mem_cons, exists_eq_or_imp, ih]
    exact or_comm.trans (or_congr_left List.mem_cons.symm)
  | binary lhs op rhs s ihl ihr =>
    have hinside : (∃ n ∈ lhs.nodes ++ rhs.nodes, c ∈ n.ownChecks) ↔ c ∈ lhs.checks ∨ c ∈ rhs.checks := by
      rw [ihl, ihr]
      simp only [List.mem_append, or_and_right, exists_or]
    simp only [nodes, List.mem_cons, exists_eq_or_imp, hinside]
    cases op
    all_goals
      simp only [checks, ownChecks, List.mem_append, List.mem_cons, List.not_mem_nil, or_false]
      grind

end Expr

section Lookup

variable (lookup : String → Option Value)

namespace Check

/-- An operand of the wrong kind: a string where a tristate has to be, or beside one. -/
def Offends : Check → Prop
  | operand _ e => ∃ s, eval .lenient lookup e = .ok (.string s)
  | comparison _ lhs rhs => ∃ t s,
    (eval .lenient lookup lhs = .ok (.tristate t) ∧ eval .lenient lookup rhs = .ok (.string s)) ∨
      (eval .lenient lookup lhs = .ok (.string s) ∧ eval .lenient lookup rhs = .ok (.tristate t))

/-- The error at a check, if one of its operands is of the wrong kind; its span is that of the string. -/
def offence? : Check → Option TypeMismatch
  | operand demand e =>
    match eval .lenient lookup e with
    | .ok (.string _) => some ⟨demand, e.span⟩
    | _ => none
  | comparison op lhs rhs =>
    match eval .lenient lookup lhs, eval .lenient lookup rhs with
    | .ok (.tristate _), .ok (.string _) => some ⟨.operator op, rhs.span⟩
    | .ok (.string _), .ok (.tristate _) => some ⟨.operator op, lhs.span⟩
    | _, _ => none

theorem exists_offence_iff {c : Check} : (∃ err, c.offence? lookup = some err) ↔ c.Offends lookup := by
  cases c with
  | operand demand e =>
    rcases he : eval .lenient lookup e with err | (t | s) <;> simp [offence?, Offends, he]
  | comparison op lhs rhs =>
    rcases hl : eval .lenient lookup lhs with err | (t | s) <;>
      rcases hr : eval .lenient lookup rhs with err' | (t' | s') <;> simp [offence?, Offends, hl, hr]

/-- What comes behind some checks: the first error at one of them, or else the given outcome. -/
def behind {α : Type} (checks : List Check) (outcome : Except TypeMismatch α) : Except TypeMismatch α :=
  match checks.findSome? (offence? lookup) with
  | some err => .error err
  | none => outcome

section Behind

variable {α β : Type} {lookup} (xs ys : List Check)

theorem behind_cons (x : Check) (r : Except TypeMismatch α) :
    behind lookup (x :: xs) r = behind lookup [x] (behind lookup xs r) := by
  unfold behind
  rw [List.findSome?_cons, List.findSome?_singleton]
  cases x.offence? lookup <;> rfl

theorem behind_append (r : Except TypeMismatch α) :
    behind lookup (xs ++ ys) r = behind lookup xs (behind lookup ys r) := by
  unfold behind
  rw [List.findSome?_append]
  cases xs.findSome? (offence? lookup) <;> rfl

/-- What is done with a value is done behind the checks of that value. -/
theorem behind_bind (r : Except TypeMismatch α) (f : α → Except TypeMismatch β) :
    (behind lookup xs r >>= f) = behind lookup xs (r >>= f) := by
  unfold behind
  cases xs.findSome? (offence? lookup) <;> rfl

/-- Checks fail if one of them does. -/
theorem exists_behind_eq_error_iff {v : α} :
    (∃ err, behind lookup xs (.ok v) = .error err) ↔ ∃ c ∈ xs, c.Offends lookup := by
  unfold behind
  cases hfirst : xs.findSome? (offence? lookup) with
  | some err =>
    obtain ⟨c, hc, hoffence⟩ := List.exists_of_findSome?_eq_some hfirst
    have hoffends := (exists_offence_iff lookup).mp ⟨err, hoffence⟩
    exact ⟨fun _ => ⟨c, hc, hoffends⟩, fun _ => ⟨err, rfl⟩⟩
  | none =>
    constructor
    · rintro ⟨err, herr⟩
      cases herr
    · rintro ⟨c, hc, hoffends⟩
      obtain ⟨err, herr⟩ := (exists_offence_iff lookup).mpr hoffends
      have hnone := List.findSome?_eq_none_iff.mp hfirst c hc
      exact absurd (hnone.symm.trans herr) (Option.some_ne_none err).symm

end Behind

end Check

/-! ## Lenient evaluation -/

theorem exists_lenient_tristate (demand : Demand) (pos : Span) (v : Value) :
    ∃ t, Checking.lenient.tristate demand pos v = .ok t :=
  ⟨_, lenient_tristate demand pos v⟩

/-- Lenient evaluation always returns a value. -/
theorem exists_eval_lenient (e : Expr) : ∃ v, eval .lenient lookup e = .ok v :=
  ⟨_, eval_lenient lookup e⟩

theorem exists_evalTristate_lenient (e : Expr) : ∃ t, evalTristate .lenient lookup e = .ok t :=
  ⟨_, evalTristate_lenient lookup e⟩

/-! ## Strict evaluation -/

section Strict

variable {lookup}

/-- An operand that is taken strictly is taken leniently behind its check. -/
theorem strict_tristate {e : Expr} {v : Value} (h : eval .lenient lookup e = .ok v) (demand : Demand) :
    Checking.strict.tristate demand e.span v =
      Check.behind lookup [.operand demand e] (Checking.lenient.tristate demand e.span v) := by
  cases v with
  | tristate t => simp [Check.behind, Check.offence?, h, Checking.tristate]
  | string s => simp [Check.behind, Check.offence?, h, Checking.tristate]

theorem strict_compare {lhs rhs : Expr} {a b : Value} (hl : eval .lenient lookup lhs = .ok a)
    (hr : eval .lenient lookup rhs = .ok b) (op : BinaryOp) :
    Checking.strict.compare op lhs.span rhs.span a b =
      Check.behind lookup [.comparison op lhs rhs] (Checking.lenient.compare op lhs.span rhs.span a b) := by
  cases a <;> cases b <;> simp [Check.behind, Check.offence?, hl, hr, Checking.compare]

variable (lookup)

/-- Strict evaluation is lenient evaluation behind its checks. -/
theorem eval_strict (e : Expr) :
    eval .strict lookup e = Check.behind lookup e.checks (eval .lenient lookup e) := by
  have hok {α β : Type} (v : α) (f : α → Except TypeMismatch β) : (Except.ok v >>= f) = f v := rfl
  induction e with
  | symbol | bool | tristate | int | hex | string => rfl
  | not operand s ih =>
    obtain ⟨a, ha⟩ := exists_eval_lenient lookup operand
    simp only [eval, Expr.checks, ih, ha, hok, Check.behind_bind, Check.behind_append, strict_tristate ha]
  | binary lhs op rhs s ihl ihr =>
    obtain ⟨a, ha⟩ := exists_eval_lenient lookup lhs
    obtain ⟨b, hb⟩ := exists_eval_lenient lookup rhs
    -- The lenient value of the left operand is known before the checks of the right one.
    obtain ⟨t, ht⟩ := exists_lenient_tristate (.operator op) lhs.span a
    cases op with
    | and | or =>
      simp only [eval, Expr.checks, ihl, ihr, ha, hb, ht, hok, Check.behind_bind, Check.behind_append,
        Check.behind_cons (_ ++ _), strict_tristate ha, strict_tristate hb]
    | _ =>
      simp only [eval, Expr.checks, ihl, ihr, ha, hb, hok, Check.behind_bind, Check.behind_append,
        strict_compare ha hb]

/-- So it is with conditions. -/
theorem evalTristate_strict (e : Expr) :
    evalTristate .strict lookup e = Check.behind lookup e.conditionChecks (evalTristate .lenient lookup e) := by
  obtain ⟨v, hv⟩ := exists_eval_lenient lookup e
  unfold evalTristate Expr.conditionChecks
  rw [eval_strict, Check.behind_bind, Check.behind_append, hv]
  exact congrArg _ (strict_tristate hv .condition)

end Strict

/-- **Strictness**: lenient evaluation always returns a value. Strict evaluation fails exactly if an operand of
`!`, `&&` or `||` has a string for its lenient value, or a comparison a tristate and a string; as a condition also
if the whole expression has a string. The error is that of the first such place in the order of evaluation, and
where there is none strict evaluation returns what lenient evaluation does. -/
theorem eval_strict_refines (e : Expr) :
    (∃ v, eval .lenient lookup e = .ok v) ∧ (∃ t, evalTristate .lenient lookup e = .ok t) ∧
      ((∃ err, eval .strict lookup e = .error err) ↔ ∃ n ∈ e.nodes, ∃ c ∈ n.ownChecks, c.Offends lookup) ∧
      ((∃ err, evalTristate .strict lookup e = .error err) ↔
        (∃ n ∈ e.nodes, ∃ c ∈ n.ownChecks, c.Offends lookup) ∨ (Check.operand .condition e).Offends lookup) ∧
      (eval .strict lookup e = match e.checks.findSome? (Check.offence? lookup) with
        | some err => .error err
        | none => eval .lenient lookup e) ∧
      (evalTristate .strict lookup e = match e.conditionChecks.findSome? (Check.offence? lookup) with
        | some err => .error err
        | none => evalTristate .lenient lookup e) := by
  have hnodes : (∃ n ∈ e.nodes, ∃ c ∈ n.ownChecks, c.Offends lookup) ↔ ∃ c ∈ e.checks, c.Offends lookup := by
    simp only [Expr.mem_checks]
    constructor
    · rintro ⟨n, hn, c, hc, hoffends⟩
      exact ⟨c, ⟨n, hn, hc⟩, hoffends⟩
    · rintro ⟨c, ⟨n, hn, hc⟩, hoffends⟩
      exact ⟨n, hn, c, hc, hoffends⟩
  obtain ⟨v, hv⟩ := exists_eval_lenient lookup e
  obtain ⟨t, ht⟩ := exists_evalTristate_lenient lookup e
  refine ⟨⟨v, hv⟩, ⟨t, ht⟩, ?_, ?_, eval_strict lookup e, evalTristate_strict lookup e⟩
  · rw [hnodes, eval_strict, hv, Check.exists_behind_eq_error_iff]
  · rw [hnodes, evalTristate_strict, ht, Check.exists_behind_eq_error_iff]
    simp only [Expr.conditionChecks, List.mem_append, List.mem_singleton, or_and_right, exists_or, exists_eq_left]

end Lookup

end KconfigLang
