import KconfigLang.Proofs.Grammar.Positions
import KconfigLang.Proofs.Token.Spelling

/-!
# Printed expressions

Expressions are written with the parentheses that precedence asks for, and with any number of others. What is
read back is the same expression.

- `Expr.words`: the tokens of an expression; `Expr.print`: its text.
- `Expr.Parseable`: what some text is parsed to, up to positions.
- `derives_words`: the tokens of an expression are derivable.
- `parseExpr_grammar`: expressions are parsed as their grammar says, and printed ones as they were.
-/

namespace KconfigLang

open KconfigLang.Derivation

/-! ## Precedence -/

namespace BinaryOp

/-- The mark of an operator. -/
def mark : BinaryOp → Mark
  | equal => .equal
  | notEqual => .notEqual
  | less => .less
  | lessEqual => .lessEqual
  | greater => .greater
  | greaterEqual => .greaterEqual
  | and => .and
  | or => .or

/-- How tightly an operator binds. -/
def level : BinaryOp → Nat
  | or => 0
  | and => 1
  | equal | notEqual | less | lessEqual | greater | greaterEqual => 2

/-- How tightly the left operand must bind; connectives group to the left and comparisons do not chain. -/
def leftLevel : BinaryOp → Nat
  | or => 0
  | and => 1
  | equal | notEqual | less | lessEqual | greater | greaterEqual => 3

/-- How tightly the right operand must bind. -/
def rightLevel : BinaryOp → Nat
  | or => 1
  | and => 2
  | equal | notEqual | less | lessEqual | greater | greaterEqual => 3

end BinaryOp

namespace Expr

/-- How tightly an expression binds: 0 for `||`, 1 for `&&`, 2 for comparisons and 3 for operands. -/
def level : Expr → Nat
  | binary _ op _ _ => op.level
  | _ => 3

/-- The number of pairs of parentheses that an operand needs. -/
def parens (operand : Expr) (level : Nat) : Nat :=
  if operand.level < level then 1 else 0

/-- The literals and symbols in an expression. -/
def leaves : Expr → List Expr
  | not operand _ => operand.leaves
  | binary lhs _ rhs _ => lhs.leaves ++ rhs.leaves
  | e => [e]

/-- The tokens of the literals and symbols in an expression. -/
def leafTokens : Expr → List Token
  | symbol id => [.ident id.name]
  | bool value _ => [.tristate (.ofBool value)]
  | tristate value _ => [.tristate value]
  | int value _ => [.number value]
  | hex value _ => [.hexNumber value]
  | string lit => [.string lit.value lit.raw]
  | not operand _ => operand.leafTokens
  | binary lhs _ rhs _ => lhs.leafTokens ++ rhs.leafTokens

/-- Some tokens in `n` pairs of parentheses. -/
def parenthesize (n : Nat) (ts : List Token) : List Token :=
  List.replicate n (.mark .leftParen) ++ ts ++ List.replicate n (.mark .rightParen)

/-- The tokens of an expression. Beside the parentheses that it needs the operand at a path, `false` for the
left and `true` for the right, gets `extra` pairs. -/
def words : Expr → (extra : List Bool → Nat) → List Token
  | not operand _, extra => .mark .not :: parenthesize (operand.parens 3 + extra [false])
      (words operand fun path => extra (false :: path))
  | binary lhs op rhs _, extra =>
    parenthesize (lhs.parens op.leftLevel + extra [false]) (words lhs fun path => extra (false :: path)) ++
      .mark op.mark :: parenthesize (rhs.parens op.rightLevel + extra [true])
        (words rhs fun path => extra (true :: path))
  | e, _ => e.leafTokens

/-- The text of an expression, with a space between each two tokens. -/
def print (e : Expr) (extra : List Bool → Nat) : String :=
  spacedText (parenthesize (extra []) (e.words extra))

/-- Some text is parsed to the expression, up to positions. -/
def Parseable (e : Expr) : Prop :=
  ∃ text e', parseExpr text = .ok e' ∧ e'.erase = e.erase

end Expr

/-! ## Derivations of printed expressions -/

/-- Some tokens are those of a derivation of an expression that binds as tightly as the level says. -/
def Derives (level : Nat) (e : Expr) (ts : List Token) : Prop :=
  match level with
  | 0 => ∃ d : Disjunction, d.tokens.map Lexed.token = ts ∧ d.tree.erase = e.erase
  | 1 => ∃ d : Conjunction, d.tokens.map Lexed.token = ts ∧ d.tree.erase = e.erase
  | 2 => ∃ d : Comparison, d.tokens.map Lexed.token = ts ∧ d.tree.erase = e.erase
  | _ => ∃ d : Unary, d.tokens.map Lexed.token = ts ∧ d.tree.erase = e.erase

namespace Derives

variable {e lhs rhs : Expr} {ts us : List Token} {level : Nat}

theorem step (h : Derives (level + 1) e ts) : Derives level e ts := by
  match level with
  | 0 =>
    obtain ⟨d, htokens, htree⟩ := h
    exact ⟨.single d, htokens, htree⟩
  | 1 =>
    obtain ⟨d, htokens, htree⟩ := h
    exact ⟨.single d, htokens, htree⟩
  | 2 =>
    obtain ⟨d, htokens, htree⟩ := h
    exact ⟨.single d, htokens, htree⟩
  | _ + 3 => exact h

/-- What binds more tightly may stand wherever less is asked for. -/
theorem loosen {tight : Nat} (h : Derives tight e ts) (hlevel : level ≤ tight) :
    Derives level e ts := by
  induction hlevel with
  | refl => exact h
  | step _ ih => exact ih h.step

theorem parens (h : Derives 0 e ts) :
    Derives 3 e (.mark .leftParen :: (ts ++ [.mark .rightParen])) := by
  obtain ⟨d, rfl, htree⟩ := h
  exact ⟨.parens .blank d .blank, by simp [Unary.tokens], htree⟩

/-- In parentheses an expression may stand everywhere; by induction on the number of pairs. -/
theorem parenthesize (h : Derives 0 e ts) (n : Nat) : Derives 3 e (Expr.parenthesize (n + 1) ts) := by
  induction n with
  | zero => exact h.parens
  | succ n ih =>
    have hwrap : Expr.parenthesize (n + 2) ts =
        .mark .leftParen :: (Expr.parenthesize (n + 1) ts ++ [.mark .rightParen]) := by
      simp only [Expr.parenthesize, List.append_assoc]
      rw [← List.replicate_succ', List.replicate_succ]
      rfl
    rw [hwrap]
    exact (ih.loosen (Nat.zero_le 3)).parens

/-- With the parentheses that it needs an expression may stand where `level` is asked for. -/
theorem enclose (h : Derives e.level e ts) (hlevel : level ≤ 3) (extra : Nat) :
    Derives level e (Expr.parenthesize (e.parens level + extra) ts) := by
  cases hn : e.parens level + extra with
  | zero =>
    -- No parentheses are written only if none are needed.
    have hle : level ≤ e.level := by
      by_contra hlt
      simp [Expr.parens, Nat.lt_of_not_le hlt] at hn
    have hnone : Expr.parenthesize 0 ts = ts := by simp [Expr.parenthesize]
    rw [hnone]
    exact h.loosen hle
  | succ n => exact ((h.loosen (Nat.zero_le _)).parenthesize n).loosen hlevel

theorem not {pos : Span} (h : Derives 3 e ts) : Derives 3 (.not e pos) (.mark .not :: ts) := by
  obtain ⟨d, rfl, htree⟩ := h
  refine ⟨.not .blank d, rfl, ?_⟩
  show Expr.not d.tree.erase .blank = _
  rw [htree]
  rfl

theorem compare (op : Comparator) {pos : Span} (hl : Derives 3 lhs ts) (hr : Derives 3 rhs us) :
    Derives 2 (.binary lhs op.op rhs pos) (ts ++ .mark op.mark :: us) := by
  obtain ⟨d, rfl, hd⟩ := hl
  obtain ⟨d', rfl, hd'⟩ := hr
  refine ⟨.compare d op .blank d', by simp [Comparison.tokens], ?_⟩
  rw [Comparison.tree, Expr.erase_join, hd, hd']
  rfl

theorem binary (op : BinaryOp) {pos : Span} (hl : Derives op.leftLevel lhs ts)
    (hr : Derives op.rightLevel rhs us) :
    Derives op.level (.binary lhs op rhs pos) (ts ++ .mark op.mark :: us) := by
  cases op with
  | or =>
    obtain ⟨d, rfl, hd⟩ := hl
    obtain ⟨d', rfl, hd'⟩ := hr
    refine ⟨.or d .blank d', by simp [Disjunction.tokens, BinaryOp.mark], ?_⟩
    rw [Disjunction.tree, Expr.erase_join, hd, hd']
    rfl
  | and =>
    obtain ⟨d, rfl, hd⟩ := hl
    obtain ⟨d', rfl, hd'⟩ := hr
    refine ⟨.and d .blank d', by simp [Conjunction.tokens, BinaryOp.mark], ?_⟩
    rw [Conjunction.tree, Expr.erase_join, hd, hd']
    rfl
  | equal => exact compare .equal hl hr
  | notEqual => exact compare .notEqual hl hr
  | less => exact compare .less hl hr
  | lessEqual => exact compare .lessEqual hl hr
  | greater => exact compare .greater hl hr
  | greaterEqual => exact compare .greaterEqual hl hr

end Derives

theorem BinaryOp.leftLevel_le (op : BinaryOp) : op.leftLevel ≤ 3 := by
  cases op <;> decide

theorem BinaryOp.rightLevel_le (op : BinaryOp) : op.rightLevel ≤ 3 := by
  cases op <;> decide

/-- The tokens of an expression are derivable, whichever parentheses are added. -/
theorem derives_words {e : Expr} (h : e.IsBare) (extra : List Bool → Nat) :
    Derives e.level e (e.words extra) := by
  induction e generalizing extra with
  | symbol id => exact ⟨.leaf (.symbol id), rfl, rfl⟩
  | bool value pos =>
    cases value
    · exact ⟨.leaf (.literal .no pos), rfl, rfl⟩
    · exact ⟨.leaf (.literal .yes pos), rfl, rfl⟩
  | tristate value pos =>
    obtain rfl : value = .module := h
    exact ⟨.leaf (.literal .module pos), rfl, rfl⟩
  | int value pos => exact ⟨.leaf (.literal (.number value) pos), rfl, rfl⟩
  | hex value pos => exact ⟨.leaf (.literal (.hexNumber value) pos), rfl, rfl⟩
  | string lit => exact ⟨.leaf (.literal (.string lit.value lit.raw) lit.span), rfl, rfl⟩
  | not operand pos ih => exact ((ih h _).enclose (Nat.le_refl 3) _).not
  | binary lhs op rhs pos ihl ihr =>
    exact .binary op ((ihl h.1 _).enclose op.leftLevel_le _) ((ihr h.2 _).enclose op.rightLevel_le _)

/-! ## Which tokens are written -/

namespace Derivation

mutual

/-- The tokens of the leaves are among those of the derivation. -/
theorem Unary.leafTokens_tree : ∀ d : Unary,
    d.tree.leafTokens.Sublist (d.tokens.map Lexed.token)
  | .not _ operand => operand.leafTokens_tree.cons _
  | .leaf (.literal l _) => by cases l <;> exact .refl _
  | .leaf (.symbol _) => .refl _
  | .parens _ inner _ => by
    rw [Unary.tokens, List.map_cons, List.map_append]
    exact (inner.leafTokens_tree.trans (List.sublist_append_left _ _)).cons _

theorem Comparison.leafTokens_tree : ∀ d : Comparison,
    d.tree.leafTokens.Sublist (d.tokens.map Lexed.token)
  | .single operand => operand.leafTokens_tree
  | .compare lhs _ _ rhs => by
    rw [Comparison.tokens, List.map_append]
    exact lhs.leafTokens_tree.append (rhs.leafTokens_tree.cons _)

theorem Conjunction.leafTokens_tree : ∀ d : Conjunction,
    d.tree.leafTokens.Sublist (d.tokens.map Lexed.token)
  | .single operand => operand.leafTokens_tree
  | .and lhs _ rhs => by
    rw [Conjunction.tokens, List.map_append]
    exact lhs.leafTokens_tree.append (rhs.leafTokens_tree.cons _)

theorem Disjunction.leafTokens_tree : ∀ d : Disjunction,
    d.tree.leafTokens.Sublist (d.tokens.map Lexed.token)
  | .single operand => operand.leafTokens_tree
  | .or lhs _ rhs => by
    rw [Disjunction.tokens, List.map_append]
    exact lhs.leafTokens_tree.append (rhs.leafTokens_tree.cons _)

end

end Derivation

namespace Expr

theorem leafTokens_erase (e : Expr) : e.erase.leafTokens = e.leafTokens := by
  induction e with
  | not operand _ ih => exact ih
  | binary lhs _ rhs _ ihl ihr => exact congrArg₂ (· ++ ·) ihl ihr
  | _ => rfl

theorem isBare_erase (e : Expr) : e.erase.IsBare ↔ e.IsBare := by
  induction e with
  | not operand _ ih => exact ih
  | binary lhs _ rhs _ ihl ihr => exact and_congr ihl ihr
  | _ => exact Iff.rfl

end Expr

/-- An expression is accepted if its tokens have a derivation. -/
theorem parseExpr_eq_ok_iff {text : String} {e : Expr} : parseExpr text = .ok e ↔
    ∃ d : Disjunction, tokenize (Locator.ofChars .root text.toList) text.toList = .ok d.tokens ∧
      d.tree = e := by
  refine (Reads.parseText_eq_ok_iff (fun _ => reads_expression) .root text e).trans ?_
  exact exists_congr fun d => and_congr_right fun _ => and_iff_left rfl

namespace Expr

theorem Parseable.isBare {e : Expr} (h : e.Parseable) : e.IsBare := by
  obtain ⟨text, e', hparse, herase⟩ := h
  obtain ⟨d, -, rfl⟩ := parseExpr_eq_ok_iff.mp hparse
  rw [← isBare_erase, ← herase, isBare_erase]
  exact d.isBare_tree

theorem Parseable.readable {e : Expr} (h : e.Parseable) : ∀ t ∈ e.leafTokens, t.Readable := by
  obtain ⟨text, e', hparse, herase⟩ := h
  obtain ⟨d, htokens, rfl⟩ := parseExpr_eq_ok_iff.mp hparse
  intro t ht
  rw [← leafTokens_erase, ← herase, leafTokens_erase] at ht
  obtain ⟨u, hu, rfl⟩ := List.mem_map.mp (d.leafTokens_tree.subset ht)
  exact readable_of_tokenize htokens u hu

/-- An expression over parseable leaves is made of tokens that are read back. -/
theorem isBare_of_leaves {e : Expr} (h : ∀ leaf ∈ e.leaves, leaf.Parseable) :
    e.IsBare ∧ ∀ t ∈ e.leafTokens, t.Readable := by
  induction e with
  | not operand _ ih => exact ih h
  | binary lhs _ rhs _ ihl ihr =>
    obtain ⟨hl, hr⟩ := List.forall_mem_append.mp h
    exact ⟨⟨(ihl hl).1, (ihr hr).1⟩, List.forall_mem_append.mpr ⟨(ihl hl).2, (ihr hr).2⟩⟩
  | _ =>
    have hleaf := h _ List.mem_cons_self
    exact ⟨hleaf.isBare, hleaf.readable⟩

theorem isOfExpr_of_mem_leafTokens {e : Expr} {t : Token} (h : t ∈ e.leafTokens) :
    t.isOfExpr = true := by
  induction e with
  | not operand _ ih => exact ih h
  | binary lhs _ rhs _ ihl ihr => exact (List.mem_append.mp h).elim ihl ihr
  | _ =>
    obtain rfl := List.mem_singleton.mp h
    rfl

theorem mem_parenthesize {n : Nat} {ts : List Token} {t : Token} (h : t ∈ parenthesize n ts) :
    (∃ m, t = .mark m) ∨ t ∈ ts := by
  rcases List.mem_append.mp h with h | h
  · rcases List.mem_append.mp h with h | h
    · exact .inl ⟨_, List.eq_of_mem_replicate h⟩
    · exact .inr h
  · exact .inl ⟨_, List.eq_of_mem_replicate h⟩

/-- Beside marks only the tokens of the leaves are written. -/
theorem mem_words {e : Expr} {extra : List Bool → Nat} {t : Token} (h : t ∈ e.words extra) :
    (∃ m, t = .mark m) ∨ t ∈ e.leafTokens := by
  induction e generalizing extra with
  | not operand _ ih =>
    rcases List.mem_cons.mp h with rfl | h
    · exact .inl ⟨_, rfl⟩
    · exact (mem_parenthesize h).elim .inl ih
  | binary lhs op rhs _ ihl ihr =>
    rcases List.mem_append.mp h with h | h
    · exact ((mem_parenthesize h).elim .inl ihl).imp_right (List.mem_append_left _)
    · rcases List.mem_cons.mp h with rfl | h
      · exact .inl ⟨_, rfl⟩
      · exact ((mem_parenthesize h).elim .inl ihr).imp_right (List.mem_append_right _)
  | _ => exact .inr h

/-- What is printed is parsed to the same expression, up to positions. -/
theorem parse_print {e : Expr} (h : ∀ leaf ∈ e.leaves, leaf.Parseable) (extra : List Bool → Nat) :
    ∃ e', parseExpr (e.print extra) = .ok e' ∧ e'.erase = e.erase := by
  obtain ⟨hbare, hreadable⟩ := isBare_of_leaves h
  have hnone : e.parens 0 + extra [] = extra [] := by simp [parens]
  obtain ⟨d, htokens, htree⟩ : Derives 0 e (parenthesize (extra []) (e.words extra)) :=
    hnone ▸ (derives_words hbare extra).enclose (Nat.zero_le 3) (extra [])
  have hwords : ∀ t ∈ parenthesize (extra []) (e.words extra), t.Readable ∧ t.isOfExpr = true := by
    intro t ht
    rcases (mem_parenthesize ht).elim .inl mem_words with ⟨m, rfl⟩ | hleaf
    · exact ⟨trivial, rfl⟩
    · exact ⟨hreadable t hleaf, isOfExpr_of_mem_leafTokens hleaf⟩
  -- The printed tokens have positions of their own, so the tree is that of `d` up to positions only.
  obtain ⟨us, hus, hsame⟩ := tokenize_spacedText hwords
    (Locator.ofChars .root (e.print extra).toList)
  have hd : Grammar.expression.parse (Locator.ofChars .root (e.print extra).toList) d.tokens =
      .ok d.tree :=
    (Reads.parse_eq_ok_iff (fun _ => reads_expression) _ _ _).mpr ⟨d, rfl, rfl, rfl⟩
  obtain ⟨e', he', hmatch⟩ := Grammar.expression_alike.parse_sameTokens (htokens.trans hsame.symm) hd
    (Locator.ofChars .root (e.print extra).toList)
  refine ⟨e', (Reader.parseText_eq_ok_iff _ _ _ _).mpr ⟨us, hus, he'⟩, Eq.trans ?_ htree⟩
  rw [erase_eq_mapSpan, erase_eq_mapSpan]
  exact hmatch.symm

end Expr

/-- **Expressions**: the tokens of a text have at most one derivation; the text is accepted if they have one,
and its tree is the tree of the derivation. An expression over parseable leaves, printed with the parentheses
that precedence asks for and any number of others, is parsed to itself up to positions. -/
theorem parseExpr_grammar :
    (∀ d d' : Disjunction, d.tokens = d'.tokens → d = d') ∧
      (∀ text e, parseExpr text = .ok e ↔ ∃ d : Disjunction,
        tokenize (Locator.ofChars .root text.toList) text.toList = .ok d.tokens ∧ d.tree = e) ∧
      ∀ e : Expr, (∀ leaf ∈ e.leaves, leaf.Parseable) → ∀ extra,
        ∃ e', parseExpr (e.print extra) = .ok e' ∧ e'.erase = e.erase :=
  ⟨fun _ _ h => Reads.unambiguous (fun _ => reads_expression) h, fun _ _ => parseExpr_eq_ok_iff,
    fun _ h => Expr.parse_print h⟩

end KconfigLang
