import KconfigLang.Grammar.Expr
import KconfigLang.Proofs.Grammar.Phrase

/-!
# Derivations of expressions

The grammar of expressions as derivation trees, one type for each level of precedence:

```
Disjunction = Conjunction { "||" Conjunction }
Conjunction = Comparison { "&&" Comparison }
Comparison  = Unary [ op Unary ]
Unary       = "!" Unary | Leaf | "(" Disjunction ")"
Leaf        = literal | symbol
```

A derivation keeps the span of each of its tokens. Repetitions are written as the left recursion that they
stand for, `Conjunction = Comparison | Conjunction "&&" Comparison`.

- `Disjunction.tokens` and `Disjunction.tree`: the tokens that a derivation writes and its expression.
- `reads_expression`: `Grammar.expression` reads these derivations.
-/

namespace KconfigLang.Derivation

/-! ## Derivation trees -/

/-- The tokens that are literals. -/
inductive Literal where
  | yes
  | no
  | module
  | number (value : Int)
  | hexNumber (value : Nat)
  | string (value raw : String)

namespace Literal

/-- The token that a literal is. -/
def token : Literal → Token
  | yes => .tristate .yes
  | no => .tristate .no
  | module => .tristate .module
  | number value => .number value
  | hexNumber value => .hexNumber value
  | string value raw => .string value raw

/-- The expression that a literal is. -/
def node : Literal → Span → Expr
  | yes, pos => .bool true pos
  | no, pos => .bool false pos
  | module, pos => .tristate .module pos
  | number value, pos => .int value pos
  | hexNumber value, pos => .hex value pos
  | string value raw, pos => .string ⟨value, raw, pos⟩

end Literal

/-- The operators that compare. -/
inductive Comparator where
  | equal
  | notEqual
  | less
  | lessEqual
  | greater
  | greaterEqual

namespace Comparator

/-- How a comparison is written. -/
def mark : Comparator → Mark
  | equal => .equal
  | notEqual => .notEqual
  | less => .less
  | lessEqual => .lessEqual
  | greater => .greater
  | greaterEqual => .greaterEqual

/-- What a comparison is in a tree. -/
def op : Comparator → BinaryOp
  | equal => .equal
  | notEqual => .notEqual
  | less => .less
  | lessEqual => .lessEqual
  | greater => .greater
  | greaterEqual => .greaterEqual

end Comparator

/-- An operand of one token. -/
inductive Leaf where
  | literal (lit : Literal) (pos : Span)
  | symbol (id : Ident)

mutual

/-- An operand with its negations. -/
inductive Unary where
  | not (pos : Span) (operand : Unary)
  | leaf (operand : Leaf)
  | parens (left : Span) (inner : Disjunction) (right : Span)

/-- One operand or two with a comparison between them. -/
inductive Comparison where
  | single (operand : Unary)
  | compare (lhs : Unary) (op : Comparator) (pos : Span) (rhs : Unary)

/-- Comparisons with `&&` between them. -/
inductive Conjunction where
  | single (operand : Comparison)
  | and (lhs : Conjunction) (pos : Span) (rhs : Comparison)

/-- Conjunctions with `||` between them, a whole expression. -/
inductive Disjunction where
  | single (operand : Conjunction)
  | or (lhs : Disjunction) (pos : Span) (rhs : Conjunction)

end

/-- The token of a symbol. -/
def identToken (id : Ident) : Lexed :=
  ⟨.ident id.name, id.span⟩

/-- The token of a string. -/
def stringToken (s : StringNode) : Lexed :=
  ⟨.string s.value s.raw, s.span⟩

/-- The token of a literal. -/
def literalToken (d : Literal × Span) : Lexed :=
  ⟨d.1.token, d.2⟩

/-- The token of an operand. -/
def Leaf.lexed : Leaf → Lexed
  | literal lit pos => literalToken (lit, pos)
  | symbol id => identToken id

/-- The expression of an operand. -/
def Leaf.tree : Leaf → Expr
  | literal lit pos => lit.node pos
  | symbol id => .symbol id

mutual

/-- The tokens of an operand. -/
def Unary.tokens : Unary → List Lexed
  | .not pos operand => ⟨.mark .not, pos⟩ :: operand.tokens
  | .leaf operand => [operand.lexed]
  | .parens left inner right =>
    ⟨.mark .leftParen, left⟩ :: (inner.tokens ++ [⟨.mark .rightParen, right⟩])

/-- The tokens of a comparison. -/
def Comparison.tokens : Comparison → List Lexed
  | .single operand => operand.tokens
  | .compare lhs op pos rhs => lhs.tokens ++ ⟨.mark op.mark, pos⟩ :: rhs.tokens

/-- The tokens of a conjunction. -/
def Conjunction.tokens : Conjunction → List Lexed
  | .single operand => operand.tokens
  | .and lhs pos rhs => lhs.tokens ++ ⟨.mark .and, pos⟩ :: rhs.tokens

/-- The tokens of an expression. -/
def Disjunction.tokens : Disjunction → List Lexed
  | .single operand => operand.tokens
  | .or lhs pos rhs => lhs.tokens ++ ⟨.mark .or, pos⟩ :: rhs.tokens

end

mutual

/-- The expression of an operand; parentheses leave no trace. -/
def Unary.tree : Unary → Expr
  | .not pos operand => .not operand.tree (spanOf (⟨.mark .not, pos⟩ :: operand.tokens))
  | .leaf operand => operand.tree
  | .parens _ inner _ => inner.tree

/-- The expression of a comparison. -/
def Comparison.tree : Comparison → Expr
  | .single operand => operand.tree
  | .compare lhs op _ rhs => lhs.tree.join op.op rhs.tree

/-- The expression of a conjunction. -/
def Conjunction.tree : Conjunction → Expr
  | .single operand => operand.tree
  | .and lhs _ rhs => lhs.tree.join .and rhs.tree

/-- The expression of a derivation. -/
def Disjunction.tree : Disjunction → Expr
  | .single operand => operand.tree
  | .or lhs _ rhs => lhs.tree.join .or rhs.tree

end

/-- The phrase of operands of one token. -/
@[simps]
def Leaf.phrase : Phrase Leaf Expr := ⟨fun d => [d.lexed], Leaf.tree, fun _ => []⟩

/-- The phrase of operands. -/
@[simps]
def Unary.phrase : Phrase Unary Expr := ⟨Unary.tokens, Unary.tree, fun _ => []⟩

/-- The phrase of comparisons. -/
@[simps]
def Comparison.phrase : Phrase Comparison Expr := ⟨Comparison.tokens, Comparison.tree, fun _ => []⟩

/-- The phrase of conjunctions. -/
@[simps]
def Conjunction.phrase : Phrase Conjunction Expr :=
  ⟨Conjunction.tokens, Conjunction.tree, fun _ => []⟩

/-- The phrase of expressions. -/
@[simps]
def Disjunction.phrase : Phrase Disjunction Expr :=
  ⟨Disjunction.tokens, Disjunction.tree, fun _ => []⟩

/-! ## First tokens and what may follow -/

/-- Whether a token compares two operands. -/
def compares : Token → Bool
  | .mark .equal | .mark .notEqual | .mark .less | .mark .lessEqual | .mark .greater
  | .mark .greaterEqual => true
  | _ => false

/-- Whether a token is a string. -/
def startsString : Token → Bool
  | .string .. => true
  | _ => false

/-- Whether a token is a literal. -/
def startsLiteral : Token → Bool
  | .tristate _ | .number _ | .hexNumber _ | .string .. => true
  | _ => false

/-- Whether a token is a symbol name. -/
def startsSymbol : Token → Bool
  | .ident _ => true
  | _ => false

/-- What may follow a comparison. -/
def afterComparison (t : Token) : Bool :=
  !compares t

/-- What may follow a conjunction. -/
def afterConjunction (t : Token) : Bool :=
  afterComparison t && t != .mark .and

/-- What may follow an expression. -/
def afterExpr (t : Token) : Bool :=
  afterConjunction t && t != .mark .or

/-! ## Operands -/

open Reader

variable {n : Nat}

theorem begins_symbol {α : Type} (tree : Ident → α) :
    (Phrase.token identToken tree).Begins startsSymbol :=
  Phrase.begins_token fun _ => rfl

theorem begins_string {α : Type} (tree : StringNode → α) :
    (Phrase.token stringToken tree).Begins startsString :=
  Phrase.begins_token fun _ => rfl

theorem begins_literal {α : Type} (tree : Literal × Span → α) :
    (Phrase.token literalToken tree).Begins startsLiteral :=
  Phrase.begins_token fun ⟨l, _⟩ => by cases l <;> rfl

theorem reads_symbol : Reads n Grammar.symbol (Phrase.token identToken id) anyToken := by
  refine ((Reads.oneOf _ identToken (fun id => Ident.mk id.name) ?_ ?_ ?_).withSpan
    (begins_symbol _)).labelled _
  · rintro ⟨name, pos⟩ ⟨name', pos'⟩ h
    simpa [identToken] using h
  · exact fun _ => rfl
  · rintro ⟨t, pos⟩ f hf
    cases t <;> simp at hf
    exact ⟨⟨_, pos⟩, rfl, hf⟩

theorem reads_string : Reads n Grammar.string (Phrase.token stringToken id) anyToken := by
  refine ((Reads.oneOf _ stringToken (fun s => StringNode.mk s.value s.raw) ?_ ?_ ?_).withSpan
    (begins_string _)).labelled _
  · rintro ⟨value, raw, pos⟩ ⟨value', raw', pos'⟩ h
    simpa [stringToken, and_assoc] using h
  · exact fun _ => rfl
  · rintro ⟨t, pos⟩ f hf
    cases t <;> simp at hf
    exact ⟨⟨_, _, pos⟩, rfl, hf⟩

theorem literalToken_injective : Function.Injective literalToken := by
  rintro ⟨l, pos⟩ ⟨l', pos'⟩ h
  cases l <;> cases l' <;> simp_all [literalToken, Literal.token]

theorem reads_literal :
    Reads n Grammar.literal (Phrase.token literalToken fun d => d.1.node d.2) anyToken := by
  refine ((Reads.oneOf _ literalToken (fun d => d.1.node) literalToken_injective ?_ ?_).withSpan
    (begins_literal _)).labelled _
  · rintro ⟨l, pos⟩
    cases l <;> rfl
  · rintro ⟨t, pos⟩ f hf
    rcases t with k | m | (_ | _ | _) | body | v | v | ⟨value, raw⟩ | name <;>
      simp only [reduceCtorEq, Option.some.injEq] at hf
    · exact ⟨(.no, pos), rfl, hf⟩
    · exact ⟨(.module, pos), rfl, hf⟩
    · exact ⟨(.yes, pos), rfl, hf⟩
    · exact ⟨(.number v, pos), rfl, hf⟩
    · exact ⟨(.hexNumber v, pos), rfl, hf⟩
    · exact ⟨(.string value raw, pos), rfl, hf⟩

/-- Literals and symbols differ in their first token. -/
theorem apart_literal_symbol : Apart startsLiteral startsSymbol := by
  intro t ht
  cases t <;> simp_all [startsSymbol, startsLiteral]

theorem reads_leaf :
    Reads n (firstOf [Grammar.literal, Expr.symbol <$> Grammar.symbol]) Leaf.phrase anyToken :=
  (reads_literal.orElse (reads_symbol.map Expr.symbol) (begins_literal _) (begins_symbol _)
    apart_literal_symbol).reshape
    (Sum.elim (fun d => .literal d.1 d.2) .symbol)
    (by
      rintro (⟨l, pos⟩ | id)
      · exact ⟨.inl (l, pos), rfl⟩
      · exact ⟨.inr id, rfl⟩)
    (by rintro (d | d) <;> rfl) (by rintro (d | d) <;> rfl) (by rintro (d | d) <;> rfl)

/-! ## Negations and parentheses -/

/-- The phrase of negations. -/
@[simps]
def notPhrase : Phrase (Span × Unary) Expr where
  tokens d := (Unary.not d.1 d.2).tokens
  tree d := (Unary.not d.1 d.2).tree
  conflicts _ := []

theorem begins_not : notPhrase.Begins (· == .mark .not) :=
  fun _ => ⟨_, _, rfl, rfl⟩

theorem begins_mark (m : Mark) :
    (Phrase.token (fun pos => ⟨.mark m, pos⟩) fun _ => ()).Begins (· == .mark m) :=
  Phrase.begins_token fun _ => by simp

theorem reads_negation {operand : Reader Expr} (h : Reads n operand Unary.phrase anyToken) :
    Reads (n + 1) (Grammar.negation operand) notPhrase anyToken :=
  (Reads.withSpan (.bind_shorter (.mark .not) (begins_mark _) (fun _ => h.andReturn _)
    fun _ => Phrase.leads_anyToken _ _) ((begins_mark _).seq _)).reshape
    id Function.surjective_id (fun _ => rfl) (fun _ => rfl) fun _ => rfl

/-- The phrase of expressions in parentheses. -/
@[simps]
def parensPhrase : Phrase (Span × Disjunction × Span) Expr where
  tokens d := (Unary.parens d.1 d.2.1 d.2.2).tokens
  tree d := (Unary.parens d.1 d.2.1 d.2.2).tree
  conflicts _ := []

theorem begins_parens : parensPhrase.Begins (· == .mark .leftParen) :=
  fun _ => ⟨_, _, rfl, rfl⟩

theorem reads_parenthesised {inner : Reader Expr} (h : Reads n inner Disjunction.phrase afterExpr) :
    Reads (n + 1) (Grammar.parenthesised inner) parensPhrase anyToken := by
  refine (Reads.bind_shorter (.mark .leftParen) (begins_mark _)
    (fun _ => .bind h (fun _ => (Reads.mark .rightParen).andReturn _) fun _ => ?_)
    fun _ => Phrase.leads_anyToken _ _).reshape
    id Function.surjective_id (fun _ => rfl) (fun _ => rfl) fun _ => rfl
  refine (begins_mark .rightParen).leads _ fun t ht => ?_
  obtain rfl : t = .mark .rightParen := by simpa using ht
  rfl

theorem reads_unary {inner : Reader Expr} (h : Reads n inner Disjunction.phrase afterExpr) :
    Reads (n + 1) (Grammar.unary inner) Unary.phrase anyToken := by
  -- `self` reads behind a `!` and `inner` behind a parenthesis: only the first is what is being defined,
  -- and at every depth `k` of negations `inner` still has to read no more than `n` tokens.
  refine Reads.fix_of_le (m := n + 1) (fun k hk self hself => ?_) (Nat.le_refl _)
  have hparens := reads_parenthesised (h.of_le (Nat.le_of_lt_succ hk))
  have hoperand := (reads_symbol.map Expr.symbol).orElse hparens (begins_symbol _) begins_parens
    (apart_of_eq rfl)
  have hplain := reads_literal.orElse hoperand (begins_literal _)
    ((begins_symbol _).sum begins_parens) (apart_literal_symbol.or (apart_of_eq rfl))
  refine ((reads_negation hself).orElse hplain begins_not
    ((begins_literal _).sum ((begins_symbol _).sum begins_parens)) (apart_eq rfl)).reshape
    (Sum.elim (fun d => .not d.1 d.2) (Sum.elim (fun d => .leaf (.literal d.1 d.2))
      (Sum.elim (fun id => .leaf (.symbol id)) fun d => .parens d.1 d.2.1 d.2.2))) ?_ ?_ ?_ ?_
  · rintro (⟨pos, u⟩ | ⟨⟨l, pos⟩ | id⟩ | ⟨left, e, right⟩)
    · exact ⟨.inl (pos, u), rfl⟩
    · exact ⟨.inr (.inl (l, pos)), rfl⟩
    · exact ⟨.inr (.inr (.inl id)), rfl⟩
    · exact ⟨.inr (.inr (.inr (left, e, right))), rfl⟩
  · rintro (d | d | d | d) <;> rfl
  · rintro (d | d | d | d) <;> rfl
  · rintro (d | d | d | d) <;> rfl

/-! ## Comparisons -/

/-- The token of a comparison operator. -/
def comparatorToken (d : Comparator × Span) : Lexed :=
  ⟨.mark d.1.mark, d.2⟩

theorem begins_comparator {α : Type} (tree : Comparator × Span → α) :
    (Phrase.token comparatorToken tree).Begins compares :=
  Phrase.begins_token fun ⟨op, _⟩ => by cases op <;> rfl

theorem reads_comparator :
    Reads n Grammar.comparisonOp (Phrase.token comparatorToken fun d => d.1.op) anyToken := by
  refine Reads.oneOf _ comparatorToken (fun d => d.1.op) ?_ ?_ ?_
  · rintro ⟨op, pos⟩ ⟨op', pos'⟩ h
    cases op <;> cases op' <;> simp_all [comparatorToken, Comparator.mark]
  · rintro ⟨op, pos⟩
    cases op <;> rfl
  · rintro ⟨t, pos⟩ op hop
    split at hop <;> cases hop
    · exact ⟨(.equal, pos), by simp_all [comparatorToken, Comparator.mark], rfl⟩
    · exact ⟨(.notEqual, pos), by simp_all [comparatorToken, Comparator.mark], rfl⟩
    · exact ⟨(.less, pos), by simp_all [comparatorToken, Comparator.mark], rfl⟩
    · exact ⟨(.lessEqual, pos), by simp_all [comparatorToken, Comparator.mark], rfl⟩
    · exact ⟨(.greater, pos), by simp_all [comparatorToken, Comparator.mark], rfl⟩
    · exact ⟨(.greaterEqual, pos), by simp_all [comparatorToken, Comparator.mark], rfl⟩

theorem reads_comparison {operand : Reader Expr} (h : Reads n operand Unary.phrase anyToken) :
    Reads n (Grammar.comparison operand) Comparison.phrase afterComparison := by
  have hright : Reads n (do let op ← Grammar.comparisonOp; let rhs ← operand; return (op, rhs)) _
      anyToken :=
    reads_comparator.andThen fun _ => h.andReturn _
  have hcompared : Reads n (Reader.optional _) _ afterComparison :=
    hright.optional ((begins_comparator _).seq _) fun t ht => ⟨rfl, by simpa [afterComparison] using ht⟩
  refine (h.andThen fun _ => hcompared.andReturn _).reshape
    (fun d => match d.2 with
      | none => .single d.1
      | some (op, v) => .compare d.1 op.1 op.2 v) ?_ ?_ ?_ ?_
  · rintro (u | ⟨u, op, pos, v⟩)
    · exact ⟨(u, none), rfl⟩
    · exact ⟨(u, some ((op, pos), v)), rfl⟩
  · rintro ⟨u, _ | ⟨op, v⟩⟩
    · exact (List.append_nil _).symm
    · rfl
  · rintro ⟨u, _ | ⟨op, v⟩⟩ <;> rfl
  · rintro ⟨u, _ | ⟨op, v⟩⟩ <;> rfl

/-! ## Chains of operands -/

section Chain

variable {D K : Type} {sign : Mark} {op : BinaryOp} {P : Phrase D Expr} {Q : Phrase K Expr}
  {first : D → K} {link : K → Span → D → K} {follow : Token → Bool}

/-- The derivations of `Q` are operands of `P` with one connective between them, grouped to the left. -/
structure IsChain (sign : Mark) (op : BinaryOp) (P : Phrase D Expr) (Q : Phrase K Expr) (first : D → K)
    (link : K → Span → D → K) : Prop where
  tokens_first : ∀ d, Q.tokens (first d) = P.tokens d
  tree_first : ∀ d, Q.tree (first d) = P.tree d
  tokens_link : ∀ k pos d, Q.tokens (link k pos d) = Q.tokens k ++ ⟨.mark sign, pos⟩ :: P.tokens d
  tree_link : ∀ k pos d, Q.tree (link k pos d) = (Q.tree k).join op (P.tree d)
  induct : ∀ motive : K → Prop, (∀ d, motive (first d)) →
    (∀ k pos d, motive k → motive (link k pos d)) → ∀ k, motive k
  conflicts_operand : ∀ d, P.conflicts d = []
  conflicts_chain : ∀ k, Q.conflicts k = []

/-- The phrase of a connective with its right operand. -/
def linkPhrase (sign : Mark) (P : Phrase D Expr) : Phrase (Span × D) Expr :=
  (Phrase.token (fun pos => ⟨.mark sign, pos⟩) fun _ => ()).seq fun _ => P

/-- A chain from its first operand and the others. -/
def chainOf (first : D → K) (link : K → Span → D → K) (d : D × List (Span × D)) : K :=
  d.2.foldl (fun k x => link k x.1 x.2) (first d.1)

namespace IsChain

theorem tokens_foldl (h : IsChain sign op P Q first link) (more : List (Span × D)) (k : K) :
    Q.tokens (more.foldl (fun k x => link k x.1 x.2) k) =
      Q.tokens k ++ (linkPhrase sign P).list.tokens more := by
  induction more generalizing k with
  | nil => simp
  | cons x more ih => simp [ih, h.tokens_link, linkPhrase]

theorem tree_foldl (h : IsChain sign op P Q first link) (more : List (Span × D)) (k : K) :
    Q.tree (more.foldl (fun k x => link k x.1 x.2) k) =
      ((linkPhrase sign P).list.tree more).foldl (·.join op ·) (Q.tree k) := by
  induction more generalizing k with
  | nil => rfl
  | cons x more ih => simp [ih, h.tree_link, linkPhrase]

theorem chainOf_surjective (h : IsChain sign op P Q first link) :
    Function.Surjective (chainOf first link) := by
  refine h.induct _ (fun d => ⟨(d, []), rfl⟩) ?_
  rintro _ pos d ⟨⟨d₀, more⟩, rfl⟩
  exact ⟨(d₀, more ++ [(pos, d)]), by simp [chainOf]⟩

/-- A chain is read if its operands are, and if the connective neither begins nor continues one. -/
theorem reads (h : IsChain sign op P Q first link) {operand : Reader Expr}
    {follow' : Token → Bool} (hoperand : Reads n operand P follow)
    (hsign : follow (.mark sign) = true)
    (hfollow : ∀ t, follow' t = true → follow t = true ∧ (t == .mark sign) = false) :
    Reads n (Grammar.chain sign op operand) Q follow' := by
  have hlink : Reads n (do Reader.mark sign; operand) (linkPhrase sign P) follow :=
    (Reads.mark sign).andThen fun _ => hoperand
  have hbegins : (linkPhrase sign P).Begins (· == .mark sign) := (begins_mark sign).seq _
  have hstart : ∀ t, (t == .mark sign) = true → follow t = true := by
    intro t ht
    obtain rfl : t = .mark sign := by simpa using ht
    exact hsign
  -- The reader folds its links to the left; derivations are grouped to the left by their constructors.
  refine (Reads.bind hoperand (fun _ => (hlink.many hbegins hstart hfollow).andReturn _)
    fun _ => ?_).reshape (chainOf first link) h.chainOf_surjective ?_ ?_ ?_
  · exact hbegins.leads_list hstart fun t ht => (hfollow t ht).1
  · rintro ⟨d, more⟩
    simp [chainOf, h.tokens_foldl, h.tokens_first]
  · rintro ⟨d, more⟩
    simp [chainOf, h.tree_foldl, h.tree_first]
  · rintro ⟨d, more⟩
    simp [h.conflicts_operand, h.conflicts_chain, linkPhrase]

end IsChain

end Chain

theorem conjunction_isChain : IsChain .and .and Comparison.phrase Conjunction.phrase
    Conjunction.single Conjunction.and where
  tokens_first _ := rfl
  tree_first _ := rfl
  tokens_link _ _ _ := rfl
  tree_link _ _ _ := rfl
  induct motive hfirst hlink :=
    let rec go : ∀ k, motive k
      | .single d => hfirst d
      | .and k pos d => hlink k pos d (go k)
    go
  conflicts_operand _ := rfl
  conflicts_chain _ := rfl

theorem disjunction_isChain : IsChain .or .or Conjunction.phrase Disjunction.phrase
    Disjunction.single Disjunction.or where
  tokens_first _ := rfl
  tree_first _ := rfl
  tokens_link _ _ _ := rfl
  tree_link _ _ _ := rfl
  induct motive hfirst hlink :=
    let rec go : ∀ k, motive k
      | .single d => hfirst d
      | .or k pos d => hlink k pos d (go k)
    go
  conflicts_operand _ := rfl
  conflicts_chain _ := rfl

/-! ## Expressions -/

theorem reads_conjunction {inner : Reader Expr} (h : Reads n inner Disjunction.phrase afterExpr) :
    Reads (n + 1) (Grammar.chain .and .and (Grammar.comparison (Grammar.unary inner)))
      Conjunction.phrase afterConjunction := by
  refine conjunction_isChain.reads (reads_comparison (reads_unary h)) rfl fun t ht => ?_
  simpa [afterConjunction] using ht

theorem reads_disjunction {inner : Reader Expr} (h : Reads n inner Disjunction.phrase afterExpr) :
    Reads (n + 1) (Grammar.disjunction inner) Disjunction.phrase afterExpr := by
  refine disjunction_isChain.reads (reads_conjunction h) rfl fun t ht => ?_
  simpa [afterExpr] using ht

/-- Expressions are read as their grammar writes them, wherever no operator follows. -/
theorem reads_expression : Reads n Grammar.expression Disjunction.phrase afterExpr :=
  (Reads.fix fun _ _ => reads_disjunction).labelled _

end KconfigLang.Derivation
