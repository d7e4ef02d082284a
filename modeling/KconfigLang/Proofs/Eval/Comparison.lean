import KconfigLang.Proofs.Eval.Lenient

/-!
# Comparisons

Two values are compared as tristates, as integers or by their spellings, whichever fits both of them, so three values
may be compared in three ways. Equality does not notice: values are equal if they denote the same, where a numeral
denotes an integer and every other value its spelling. The order does, and is one only among values of one scale.

- `Value.denoted`: what a value denotes.
- `Value.order_eq_iff`: values are equal if they denote the same.
- `Value.order_swap`: the order the other way round.
- `Value.OnScale` and `Value.order_trans`: on one scale the order is transitive.
- `eval_comparison`: a comparison of expressions goes by the order of their values.
- `compares_coherently`: how the six comparisons fit together.
-/

namespace KconfigLang

/-! ## The order of strings -/

theorem compareText_of_some {a b : String} {m n : Int} (ha : integer? a = some m) (hb : integer? b = some n) :
    compareText a b = compare m n := by
  rw [compareText, ha, hb]

theorem compareText_of_none {a b : String} (h : integer? a = none ∨ integer? b = none) :
    compareText a b = compare a b := by
  rcases h with h | h
  · rw [compareText, h]
  · cases ha : integer? a <;> rw [compareText, ha, h]

theorem compareText_swap (a b : String) : compareText b a = (compareText a b).swap := by
  cases ha : integer? a with
  | none =>
    rw [compareText_of_none (.inl ha), compareText_of_none (.inr ha)]
    exact Std.OrientedOrd.eq_swap
  | some m =>
    cases hb : integer? b with
    | none =>
      rw [compareText_of_none (.inl hb), compareText_of_none (.inr hb)]
      exact Std.OrientedOrd.eq_swap
    | some n =>
      rw [compareText_of_some ha hb, compareText_of_some hb ha]
      exact Std.OrientedOrd.eq_swap

namespace Value

/-- What a value denotes: a numeral the integer, whatever its base, and every other value its spelling. -/
def denoted (v : Value) : Int ⊕ String :=
  match integer? v.text with
  | some n => .inl n
  | none => .inr v.text

theorem denoted_of_some {v : Value} {n : Int} (h : integer? v.text = some n) : v.denoted = .inl n := by
  rw [denoted, h]

theorem denoted_of_none {v : Value} (h : integer? v.text = none) : v.denoted = .inr v.text := by
  rw [denoted, h]

/-- Spellings compare as equal if they denote the same, for what is spelled as a numeral is one. -/
theorem compareText_eq_iff (a b : Value) : compareText a.text b.text = .eq ↔ a.denoted = b.denoted := by
  have hapart {v w : Value} {n : Int} (hv : integer? v.text = some n) (hw : integer? w.text = none) :
      v.text ≠ w.text := by
    intro htext
    rw [htext, hw] at hv
    exact Option.some_ne_none n hv.symm
  cases ha : integer? a.text with
  | some m =>
    cases hb : integer? b.text with
    | some n => simp [compareText_of_some ha hb, denoted_of_some ha, denoted_of_some hb]
    | none => simp [compareText_of_none (.inr hb), denoted_of_some ha, denoted_of_none hb, hapart ha hb]
  | none =>
    rw [compareText_of_none (.inl ha), Std.compare_eq_iff_eq, denoted_of_none ha]
    cases hb : integer? b.text with
    | some n => simp [denoted_of_some hb, (hapart hb ha).symm]
    | none => simp [denoted_of_none hb]

/-! ## The order of values -/

/-- Tristates are equal if their letters are, so that equality goes by the spelling of a value alone. -/
theorem order_eq_iff_text (a b : Value) : a.order b = .eq ↔ compareText a.text b.text = .eq := by
  cases a with
  | string s => rfl
  | tristate t =>
    cases b with
    | string s => rfl
    | tristate u => cases t <;> cases u <;> decide

/-- Values are equal if they denote the same. -/
theorem order_eq_iff (a b : Value) : a.order b = .eq ↔ a.denoted = b.denoted :=
  (order_eq_iff_text a b).trans (compareText_eq_iff a b)

/-- So are numerals of both bases, with a sign and blanks around them. -/
example : (string "0x1F").denoted = (string " +31 ").denoted := by
  decide

theorem order_swap (a b : Value) : b.order a = (a.order b).swap := by
  cases a with
  | string s => cases b <;> exact compareText_swap s _
  | tristate t =>
    cases b with
    | string s => exact compareText_swap t.text s
    | tristate u => exact Std.OrientedOrd.eq_swap (a := u.rank)

/-- What values are ordered as. -/
inductive Scale where
  | tristates
  | numerals
  | spellings
  deriving DecidableEq, Repr

/-- The values of a scale: tristates, numerals, or strings that are no numerals. -/
inductive OnScale : Scale → Value → Prop where
  | tristate (t : Tristate) : OnScale .tristates (.tristate t)
  | numeral {s : String} {n : Int} (h : integer? s = some n) : OnScale .numerals (.string s)
  | spelling {s : String} (h : integer? s = none) : OnScale .spellings (.string s)

/-- On one scale the order is transitive, for there it is the order of tristates, of integers or of strings. -/
theorem order_trans {scale : Scale} {a b c : Value} (ha : OnScale scale a) (hb : OnScale scale b)
    (hc : OnScale scale c) (hab : a.order b = .lt) (hbc : b.order c = .lt) : a.order c = .lt := by
  cases ha with
  | tristate t =>
    obtain ⟨u⟩ := hb
    obtain ⟨v⟩ := hc
    have htu : compare t.rank u.rank = .lt := hab
    have huv : compare u.rank v.rank = .lt := hbc
    show compare t.rank v.rank = .lt
    exact Std.TransCmp.lt_trans htu huv
  | numeral hm =>
    cases hb with | numeral hn =>
    cases hc with | numeral hk =>
    exact (compareText_of_some hm hk).trans (Std.TransCmp.lt_trans
      ((compareText_of_some hm hn).symm.trans hab) ((compareText_of_some hn hk).symm.trans hbc))
  | spelling hs =>
    cases hb with | spelling ht =>
    obtain ⟨u, rfl⟩ : ∃ u, c = .string u := by
      cases hc
      exact ⟨_, rfl⟩
    exact (compareText_of_none (.inl hs)).trans (Std.TransCmp.lt_trans
      ((compareText_of_none (.inl hs)).symm.trans hab) ((compareText_of_none (.inl ht)).symm.trans hbc))

/-- Across the scales it goes round: `9` is less than `10` as an integer, and both are strings beside `1a`. -/
example : (string "9").order (string "10") = .lt ∧ (string "10").order (string "1a") = .lt ∧
    (string "1a").order (string "9") = .lt := by
  decide

end Value

/-! ## Comparisons of expressions -/

section Lookup

variable (lookup : String → Option Value)

/-- The operators that compare their operands. -/
def BinaryOp.comparisons : List BinaryOp :=
  [.equal, .notEqual, .less, .lessEqual, .greater, .greaterEqual]

/-- A comparison goes by the order of the values of its operands. -/
theorem eval_comparison {op : BinaryOp} (hop : op ∈ BinaryOp.comparisons) (a b : Expr) (span : Span) :
    eval .lenient lookup (.binary a op b span) =
      .ok (.tristate (.ofBool (op.holds ((a.value lookup).order (b.value lookup))))) := by
  rw [eval_lenient]
  cases op with
  | and | or => exact absurd hop (by decide)
  | _ => rfl

/-- A comparison that holds where another does not is the negation of that one. -/
theorem eval_eq_not {op op' : BinaryOp} (hop : op ∈ BinaryOp.comparisons) (hop' : op' ∈ BinaryOp.comparisons)
    (h : ∀ o, op.holds o = !op'.holds o) (a b : Expr) (s s' s'' : Span) :
    eval .lenient lookup (.binary a op b s) = eval .lenient lookup (.not (.binary a op' b s') s'') := by
  have hcomparison := eval_comparison lookup hop' a b s'
  rw [eval_lenient] at hcomparison
  rw [eval_comparison lookup hop, eval_lenient, Expr.value, Except.ok.inj hcomparison, h]
  cases op'.holds ((a.value lookup).order (b.value lookup)) <;> rfl

/-- Under lenient evaluation a comparison has the given outcome, wherever it stands. -/
def Answers (a : Expr) (op : BinaryOp) (b : Expr) (t : Tristate) : Prop :=
  ∀ span, eval .lenient lookup (.binary a op b span) = .ok (.tristate t)

theorem answers_of_holds {op : BinaryOp} (hop : op ∈ BinaryOp.comparisons) {a b : Expr} {holds : Bool}
    (h : op.holds ((a.value lookup).order (b.value lookup)) = holds) :
    Answers lookup a op b (.ofBool holds) := by
  intro span
  rw [eval_comparison lookup hop, h]

theorem answers_yes_iff {op : BinaryOp} (hop : op ∈ BinaryOp.comparisons) (a b : Expr) :
    Answers lookup a op b .yes ↔ op.holds ((a.value lookup).order (b.value lookup)) = true := by
  refine ⟨fun h => ?_, fun h => answers_of_holds lookup hop h⟩
  have hanswer := (eval_comparison lookup hop a b a.span).symm.trans (h a.span)
  cases hholds : op.holds ((a.value lookup).order (b.value lookup)) with
  | true => rfl
  | false =>
    rw [hholds] at hanswer
    exact absurd (Value.tristate.inj (Except.ok.inj hanswer)) (by decide)

theorem answers_less_iff (a b : Expr) :
    Answers lookup a .less b .yes ↔ (a.value lookup).order (b.value lookup) = .lt :=
  (answers_yes_iff lookup (by decide) a b).trans beq_iff_eq

theorem answers_equal_iff (a b : Expr) :
    Answers lookup a .equal b .yes ↔ (a.value lookup).denoted = (b.value lookup).denoted :=
  ((answers_yes_iff lookup (by decide) a b).trans beq_iff_eq).trans (Value.order_eq_iff _ _)

/-- Of every order exactly one of `<`, `=` and `>` holds. -/
theorem exists_holds (o : Ordering) : ∃ op ∈ [BinaryOp.less, .equal, .greater], op.holds o = true ∧
    ∀ other ∈ [BinaryOp.less, .equal, .greater], other ≠ op → other.holds o = false := by
  cases o <;> decide

/-- The six comparisons of any expressions fit together. -/
structure ComparesCoherently : Prop where
  /-- One of `<`, `=` and `>` holds, and both others do not. -/
  one_holds : ∀ a b, ∃ op ∈ [BinaryOp.less, .equal, .greater], Answers lookup a op b .yes ∧
    ∀ other ∈ [BinaryOp.less, .equal, .greater], other ≠ op → Answers lookup a other b .no
  /-- `<=` is the negation of `>`. -/
  lessEqual : ∀ a b s s' s'', eval .lenient lookup (.binary a .lessEqual b s) =
    eval .lenient lookup (.not (.binary a .greater b s') s'')
  /-- `>=` is the negation of `<`. -/
  greaterEqual : ∀ a b s s' s'', eval .lenient lookup (.binary a .greaterEqual b s) =
    eval .lenient lookup (.not (.binary a .less b s') s'')
  /-- `!=` is the negation of `=`. -/
  notEqual : ∀ a b s s' s'', eval .lenient lookup (.binary a .notEqual b s) =
    eval .lenient lookup (.not (.binary a .equal b s') s'')
  /-- `<` is `>` with its operands exchanged. -/
  less_swap : ∀ a b s s', eval .lenient lookup (.binary a .less b s) =
    eval .lenient lookup (.binary b .greater a s')
  /-- `=` holds if both values denote the same integer, or the same text where one is no numeral. -/
  equal_iff : ∀ a b v w, eval .lenient lookup a = .ok v → eval .lenient lookup b = .ok w →
    (Answers lookup a .equal b .yes ↔ v.denoted = w.denoted)
  /-- Thus it is an equivalence, whatever the kinds of the values. -/
  equal_equivalence : Equivalence fun a b => Answers lookup a .equal b .yes
  /-- `<` is transitive among values of one scale. -/
  less_trans : ∀ a b c u v w scale, eval .lenient lookup a = .ok u → eval .lenient lookup b = .ok v →
    eval .lenient lookup c = .ok w → Value.OnScale scale u → Value.OnScale scale v → Value.OnScale scale w →
      Answers lookup a .less b .yes → Answers lookup b .less c .yes → Answers lookup a .less c .yes

/-- **Comparisons cohere** under lenient evaluation, in every environment. -/
theorem compares_coherently : ComparesCoherently lookup where
  one_holds a b := by
    have hcompare : ∀ op ∈ [BinaryOp.less, .equal, .greater], op ∈ BinaryOp.comparisons := by decide
    obtain ⟨op, hop, hholds, hothers⟩ := exists_holds ((a.value lookup).order (b.value lookup))
    refine ⟨op, hop, answers_of_holds lookup (hcompare op hop) hholds, fun other hother hne => ?_⟩
    exact answers_of_holds lookup (hcompare other hother) (hothers other hother hne)
  lessEqual := eval_eq_not lookup (by decide) (by decide) fun o => by cases o <;> rfl
  greaterEqual := eval_eq_not lookup (by decide) (by decide) fun o => by cases o <;> rfl
  notEqual := eval_eq_not lookup (by decide) (by decide) fun o => by cases o <;> rfl
  less_swap a b s s' := by
    rw [eval_comparison lookup (by decide), eval_comparison lookup (by decide), Value.order_swap (a.value lookup)]
    cases (a.value lookup).order (b.value lookup) <;> rfl
  equal_iff a b v w hv hw := by
    rw [eval_lenient] at hv hw
    obtain rfl := Except.ok.inj hv
    obtain rfl := Except.ok.inj hw
    exact answers_equal_iff lookup a b
  equal_equivalence := by
    simp only [answers_equal_iff]
    exact ⟨fun a => rfl, Eq.symm, Eq.trans⟩
  less_trans a b c u v w scale hu hv hw hscale hscale' hscale'' hab hbc := by
    rw [eval_lenient] at hu hv hw
    obtain rfl := Except.ok.inj hu
    obtain rfl := Except.ok.inj hv
    obtain rfl := Except.ok.inj hw
    rw [answers_less_iff] at hab hbc ⊢
    exact Value.order_trans hscale hscale' hscale'' hab hbc

end Lookup

end KconfigLang
