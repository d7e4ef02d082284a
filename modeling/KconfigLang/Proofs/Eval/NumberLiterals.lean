import KconfigLang.Proofs.Eval.Numerals
import KconfigLang.Proofs.Grammar.Printing
import KconfigLang.Proofs.Token.Pattern

/-!
# Comparisons of number literals

A literal is read as an integer of 64 bits, written out as a string and read again as an integer of 128 bits. No step
changes what it denotes: either the literal does not fit, which is a lexical error, or literals compare as the integers
that their digits denote.

- `NumberForm`: the decimal and the hexadecimal literals, and which integers fit.
- `NumberForm.exists_yields`: what a literal is read as.
- `NumberForm.eval_literal`: what a literal evaluates to is read as the same integer.
- `BinaryOp.Relates`: what a comparison says of two integers.
- `eval_compare_literals`: how two literals compare.
-/

namespace KconfigLang

open KconfigLang.Derivation (Comparator)

/-! ## Literals -/

/-- The forms of number literals. -/
inductive NumberForm where
  | decimal
  | hexadecimal
  deriving DecidableEq

namespace NumberForm

/-- The rule whose matches are the literals of a form. -/
def rule : NumberForm → LexRule
  | decimal => .decimal
  | hexadecimal => .hexadecimal

/-- The integers that fit into 64 bits, with a sign in decimal literals and without one in hexadecimal literals. -/
def Fits : NumberForm → Int → Prop
  | decimal, n => -2 ^ 63 ≤ n ∧ n < 2 ^ 63
  | hexadecimal, n => 0 ≤ n ∧ n < 2 ^ 64

/-- The literal that an integer is read as. -/
def literal : NumberForm → Int → Derivation.Literal
  | decimal, n => .number n
  | hexadecimal, n => .hexNumber n.toNat

/-- What a stream yields for a literal: its token if the integer fits. -/
inductive Yields (f : NumberForm) (n : Int) : Except LexFailure Token → Prop
  | token (h : f.Fits n) : Yields f n (.ok (f.literal n).token)
  | failure (h : ¬ f.Fits n) : Yields f n (.error .invalidNumber)

namespace Yields

variable {f : NumberForm} {n : Int} {content : Except LexFailure Token}

theorem eq_token (h : f.Yields n content) (hfits : f.Fits n) : content = .ok (f.literal n).token := by
  cases h with
  | token => rfl
  | failure hunfit => exact absurd hfits hunfit

theorem eq_failure (h : f.Yields n content) (hunfit : ¬ f.Fits n) : content = .error .invalidNumber := by
  cases h with
  | token hfits => exact absurd hfits hunfit
  | failure => rfl

theorem cause_eq {cause : LexFailure} (h : f.Yields n (.error cause)) : cause = .invalidNumber := by
  cases h
  rfl

/-- The token of a literal may stand in an expression. -/
theorem isPiece {w : List Char} (h : f.Yields n content) (hread : ReadsAs w (.ofContent content)) :
    IsPiece (w, content) := by
  refine ⟨hread, fun t ht => ?_⟩
  cases h with
  | failure => cases ht
  | token =>
    obtain rfl := Except.ok.inj ht
    cases f <;> rfl

end Yields

theorem exists_yields_decimal (n : Int) :
    ∃ content, decimal.Yields n content ∧ (Lexeme.decimal n 0).kind = .ofContent content := by
  by_cases h : Text.inSignedRange 64 n = true
  · refine ⟨_, .token (Text.inSignedRange_iff.mp h), ?_⟩
    rw [Lexeme.decimal, if_pos h]
    rfl
  · refine ⟨_, .failure fun hfits => h (Text.inSignedRange_iff.mpr hfits), ?_⟩
    rw [Lexeme.decimal, if_neg h]
    rfl

theorem exists_yields_hexadecimal (n : Nat) :
    ∃ content, hexadecimal.Yields n content ∧ (Lexeme.hexadecimal n 0).kind = .ofContent content := by
  have hfits : hexadecimal.Fits n ↔ n < UInt64.size := by
    show 0 ≤ (n : Int) ∧ (n : Int) < 2 ^ 64 ↔ n < 18446744073709551616
    omega
  by_cases h : n < UInt64.size
  · refine ⟨_, .token (hfits.mpr h), ?_⟩
    rw [Lexeme.hexadecimal, if_pos h]
    rfl
  · refine ⟨_, .failure fun h' => h (hfits.mp h'), ?_⟩
    rw [Lexeme.hexadecimal, if_neg h]
    rfl

/-- A literal denotes an integer and is read as its token, unless it does not fit. -/
theorem exists_yields {f : NumberForm} {w : List Char} (h : w ∈ f.rule.language) :
    ∃ n content, Text.Numeral w n ∧ f.Yields n content ∧ IsPiece (w, content) := by
  cases f with
  | decimal =>
    obtain ⟨d, ds, hw, hd, hds⟩ := mem_decimal.mp h
    have hall : ∀ c ∈ d :: ds, c.isDigit = true := List.forall_mem_cons.mpr ⟨hd, hds⟩
    have hdigits : Text.Digits 10 (d :: ds) (Text.digitsValue 10 (d :: ds)) :=
      Text.accepts_decimal.digits_iff.mpr ⟨List.cons_ne_nil d ds, hall, rfl⟩
    rcases hw with rfl | rfl
    · obtain ⟨content, hcontent, hkind⟩ := exists_yields_decimal (Text.digitsValue 10 (d :: ds))
      have hread := readsAs_decimal (List.cons_ne_nil d ds) hall
      exact ⟨_, content, .decimal (.plain hdigits), hcontent, hcontent.isPiece (hkind ▸ hread)⟩
    · obtain ⟨content, hcontent, hkind⟩ := exists_yields_decimal (-(Text.digitsValue 10 (d :: ds) : Int))
      have hread := readsAs_negative (List.cons_ne_nil d ds) hall
      exact ⟨_, content, .decimal (.minus hdigits), hcontent, hcontent.isPiece (hkind ▸ hread)⟩
  | hexadecimal =>
    obtain ⟨d, ds, rfl, hd, hds⟩ := mem_hexadecimal.mp h
    have hall : ∀ c ∈ d :: ds, Text.isHexDigit c = true := List.forall_mem_cons.mpr ⟨hd, hds⟩
    have hdigits : Text.Digits 16 (d :: ds) (Text.digitsValue 16 (d :: ds)) :=
      Text.accepts_hexadecimal.digits_iff.mpr ⟨List.cons_ne_nil d ds, hall, rfl⟩
    obtain ⟨content, hcontent, hkind⟩ := exists_yields_hexadecimal (Text.digitsValue 16 (d :: ds))
    have hread := readsAs_hexadecimal (List.cons_ne_nil d ds) hall
    exact ⟨_, content, .hexadecimal (.inl rfl) hdigits, hcontent, hcontent.isPiece (hkind ▸ hread)⟩

/-! ## Values of literals -/

/-- An integer that is written out denotes itself. -/
theorem denotes_toString (n : Int) : Denotes (toString n) n := by
  have hdigits (k : Nat) : Text.Digits 10 (Nat.toDigits 10 k) k :=
    Text.accepts_decimal.digits_iff.mpr
      ⟨Nat.toDigits_ne_nil, isDigit_of_mem_toDigits, Text.digitsValue_toDigits (by decide) (by decide) k⟩
  cases n with
  | ofNat k =>
    refine denotes_of_numeral (.decimal ?_)
    rw [show (toString (Int.ofNat k)).toList = _ from Token.toList_text_natural k]
    exact .plain (hdigits k)
  | negSucc k =>
    refine denotes_of_numeral (.decimal ?_)
    rw [show (toString (Int.negSucc k)).toList = _ from Token.toList_text_negSucc k]
    exact .minus (hdigits (k + 1))

theorem denotes_hexText (n : Nat) : Denotes (Text.hexText n) n := by
  refine denotes_of_numeral ?_
  rw [show (Text.hexText n).toList = _ from Token.toList_text_hexNumber n]
  refine .hexadecimal (.inl rfl) (Text.accepts_hexadecimal.digits_iff.mpr ⟨?_, fun c => ?_, ?_⟩)
  · exact Nat.toDigits_ne_nil
  · exact Text.isHexDigit_of_mem_hexDigits
  · exact Text.digitsValue_toDigits (by decide) (by decide) n

/-- A literal evaluates to a string that is read as the same integer. -/
theorem eval_literal {f : NumberForm} {n : Int} (h : f.Fits n) (check : Checking) (lookup : String → Option Value)
    (pos : Span) : ∃ s, eval check lookup ((f.literal n).node pos) = .ok (.string s) ∧ integer? s = some n := by
  cases f with
  | decimal =>
    obtain ⟨hlow, hhigh⟩ : -2 ^ 63 ≤ n ∧ n < 2 ^ 63 := h
    exact ⟨toString n, rfl, integer?_eq_some_iff.mpr ⟨.inl (denotes_toString n), by omega, by omega⟩⟩
  | hexadecimal =>
    obtain ⟨hlow, hhigh⟩ : 0 ≤ n ∧ n < 2 ^ 64 := h
    obtain ⟨k, rfl⟩ := Int.eq_ofNat_of_zero_le hlow
    exact ⟨Text.hexText k, rfl, integer?_eq_some_iff.mpr ⟨.inl (denotes_hexText k), by omega, by omega⟩⟩

end NumberForm

/-! ## Comparisons -/

/-- What a comparison says of two integers. -/
def BinaryOp.Relates : BinaryOp → Int → Int → Prop
  | equal, m, n => m = n
  | notEqual, m, n => m ≠ n
  | less, m, n => m < n
  | lessEqual, m, n => m ≤ n
  | greater, m, n => m > n
  | greaterEqual, m, n => m ≥ n
  | and, _, _ | or, _, _ => False

instance (op : BinaryOp) (m n : Int) : Decidable (op.Relates m n) :=
  match op with
  | .equal => inferInstanceAs (Decidable (m = n))
  | .notEqual => inferInstanceAs (Decidable (m ≠ n))
  | .less => inferInstanceAs (Decidable (m < n))
  | .lessEqual => inferInstanceAs (Decidable (m ≤ n))
  | .greater => inferInstanceAs (Decidable (m > n))
  | .greaterEqual => inferInstanceAs (Decidable (m ≥ n))
  | .and | .or => inferInstanceAs (Decidable False)

theorem holds_compare (op : BinaryOp) (m n : Int) : op.holds (compare m n) = decide (op.Relates m n) := by
  rw [Bool.eq_iff_iff, decide_eq_true_eq]
  rcases lt_trichotomy m n with h | rfl | h
  · rw [compare_lt_iff_lt.mpr h]
    cases op <;> simp [BinaryOp.holds, BinaryOp.Relates] <;> omega
  · rw [compare_eq_iff_eq.mpr rfl]
    cases op <;> simp [BinaryOp.holds, BinaryOp.Relates]
  · rw [compare_gt_iff_gt.mpr h]
    cases op <;> simp [BinaryOp.holds, BinaryOp.Relates] <;> omega

/-- Every comparison is written as a mark. -/
theorem exists_comparator {op : BinaryOp} (hop : op ∈ BinaryOp.comparisons) :
    ∃ cmp : Comparator, cmp.op = op ∧ cmp.mark.text = op.text := by
  cases op with
  | equal => exact ⟨.equal, rfl, rfl⟩
  | notEqual => exact ⟨.notEqual, rfl, rfl⟩
  | less => exact ⟨.less, rfl, rfl⟩
  | lessEqual => exact ⟨.lessEqual, rfl, rfl⟩
  | greater => exact ⟨.greater, rfl, rfl⟩
  | greaterEqual => exact ⟨.greaterEqual, rfl, rfl⟩
  | and | or => exact absurd hop (by decide)

/-- A text whose stream has failures of one cause only is rejected for that cause. -/
theorem parseExpr_eq_error {text : String} {contents : List (Except LexFailure Token)} {cause : LexFailure}
    (h : (Cursor.ofChars text.toList).items.map (·.content) = contents) (hmem : .error cause ∈ contents)
    (hall : ∀ cause', .error cause' ∈ contents → cause' = cause) :
    ∃ e, parseExpr text = .error (.lex e) ∧ e.cause = cause := by
  subst h
  unfold parseExpr Reader.parseText
  cases htokens : tokenize (Locator.ofChars .root text.toList) text.toList with
  | error e =>
    obtain ⟨⟨content, head, start, stop⟩, hitem, hlocate⟩ := exists_error_of_mapM htokens
    refine ⟨e, by simp only [htokens], ?_⟩
    cases content with
    | ok t => cases hlocate
    | error cause' =>
      obtain rfl := Except.error.inj hlocate
      exact hall cause' (List.mem_map_of_mem hitem)
  | ok ts =>
    obtain ⟨item, hitem, hcontent⟩ := List.mem_map.mp hmem
    obtain ⟨t, ht⟩ := Text.exists_forall₂_iff.mp ⟨ts, tokenize_eq_ok_iff.mp htokens⟩ item hitem
    cases hcontent.symm.trans (StreamItem.locate_eq_ok_iff.mp ht).1

section Texts

variable {f g : NumberForm} {v w : String} {m n : Int}

/-- What a stream yields of a comparison. -/
theorem contents_comparison {cv cw : Except LexFailure Token} (cmp : Comparator) (hv : IsPiece (v.toList, cv))
    (hw : IsPiece (w.toList, cw)) :
    (Cursor.ofChars (v ++ " " ++ cmp.mark.text ++ " " ++ w).toList).items.map (·.content) =
      [cv, .ok (.mark cmp.mark), cw] := by
  have hmark : IsPiece (Token.mark cmp.mark).piece := isPiece_token trivial rfl
  have hchars : (v ++ " " ++ cmp.mark.text ++ " " ++ w).toList =
      v.toList ++ spacedPieces [(Token.mark cmp.mark).piece, (w.toList, cw)] := by
    simp [spacedPieces, Token.piece, Token.text]
  have hpieces : ∀ p ∈ [(v.toList, cv), (Token.mark cmp.mark).piece, (w.toList, cw)], IsPiece p := by
    simp only [List.forall_mem_cons]
    exact ⟨hv, hmark, hw, List.forall_mem_nil _⟩
  exact contents_pieces hpieces hchars

/-- Two literals that fit are read as their comparison. -/
theorem parseExpr_comparison (cmp : Comparator) (hv : IsPiece (v.toList, .ok (f.literal m).token))
    (hw : IsPiece (w.toList, .ok (g.literal n).token)) : ∃ s t,
      parseExpr (v ++ " " ++ cmp.mark.text ++ " " ++ w) =
        .ok (.join ((f.literal m).node s) cmp.op ((g.literal n).node t)) := by
  have hcontents : (Cursor.ofChars (v ++ " " ++ cmp.mark.text ++ " " ++ w).toList).items.map (·.content) =
      [(f.literal m).token, .mark cmp.mark, (g.literal n).token].map .ok := contents_comparison cmp hv hw
  obtain ⟨us, htokens, hsame⟩ := tokenize_of_contents
    (Locator.ofChars .root (v ++ " " ++ cmp.mark.text ++ " " ++ w).toList) hcontents
  obtain ⟨⟨_, s⟩, us, rfl, rfl, hrest⟩ := List.map_eq_cons_iff.mp hsame
  obtain ⟨⟨_, pos⟩, us, rfl, rfl, hlast⟩ := List.map_eq_cons_iff.mp hrest
  obtain ⟨⟨_, t⟩, us, rfl, rfl, hnone⟩ := List.map_eq_cons_iff.mp hlast
  obtain rfl := List.map_eq_nil_iff.mp hnone
  refine ⟨s, t, parseExpr_eq_ok_iff.mpr ⟨.single (.single (.compare (.leaf (.literal (f.literal m) s)) cmp pos
    (.leaf (.literal (g.literal n) t)))), htokens, rfl⟩⟩

/-- Their comparison is evaluated to what it says of the integers. -/
theorem eval_comparison_literals {cmp : Comparator} (hop : cmp.op ∈ BinaryOp.comparisons) (hm : f.Fits m)
    (hn : g.Fits n) (check : Checking) (lookup : String → Option Value) (s t : Span) :
    eval check lookup (.join ((f.literal m).node s) cmp.op ((g.literal n).node t)) =
      .ok (.tristate (.ofBool (decide (cmp.op.Relates m n)))) := by
  obtain ⟨a, ha, hma⟩ := NumberForm.eval_literal hm check lookup s
  obtain ⟨b, hb, hnb⟩ := NumberForm.eval_literal hn check lookup t
  rw [Expr.join, eval_comparison_strings hop ha hb, compareText_of_some hma hnb, holds_compare]

end Texts

/-- **Comparisons of number literals**: two literals of either form, of any length, denote integers. If both fit into
64 bits, their comparison is `y` if it holds of the integers and `n` otherwise, whatever the environment and whether or
not kinds are checked. If one of them does not fit, it is an invalid number. -/
theorem eval_compare_literals {f g : NumberForm} {v w : String} {op : BinaryOp} (hv : v.toList ∈ f.rule.language)
    (hw : w.toList ∈ g.rule.language) (hop : op ∈ BinaryOp.comparisons) :
    ∃ m n, Text.Numeral v.toList m ∧ Text.Numeral w.toList n ∧
      (¬ (f.Fits m ∧ g.Fits n) → ∃ e, parseExpr (v ++ " " ++ op.text ++ " " ++ w) = .error (.lex e) ∧
        e.cause = .invalidNumber) ∧
      (f.Fits m → g.Fits n → ∃ e, parseExpr (v ++ " " ++ op.text ++ " " ++ w) = .ok e ∧
        ∀ check lookup, eval check lookup e = .ok (.tristate (.ofBool (decide (op.Relates m n))))) := by
  obtain ⟨m, cv, hm, hcv, hpv⟩ := NumberForm.exists_yields hv
  obtain ⟨n, cw, hn, hcw, hpw⟩ := NumberForm.exists_yields hw
  obtain ⟨cmp, rfl, htext⟩ := exists_comparator hop
  rw [← htext]
  refine ⟨m, n, hm, hn, fun hunfit => ?_, fun hfv hfw => ?_⟩
  · refine parseExpr_eq_error (contents_comparison cmp hpv hpw) ?_ fun cause hmem => ?_
    · rcases not_and_or.mp hunfit with h | h
      · simp [hcv.eq_failure h]
      · simp [hcw.eq_failure h]
    · simp only [List.mem_cons, reduceCtorEq, List.not_mem_nil, or_false, false_or] at hmem
      rcases hmem with rfl | rfl
      · exact hcv.cause_eq
      · exact hcw.cause_eq
  · rw [hcv.eq_token hfv] at hpv
    rw [hcw.eq_token hfw] at hpw
    obtain ⟨s, t, hparse⟩ := parseExpr_comparison cmp hpv hpw
    exact ⟨_, hparse, fun check lookup => eval_comparison_literals hop hfv hfw check lookup s t⟩

/-- The greatest hexadecimal literal is greater than the least decimal one. -/
theorem greatest_compares_to_least : ∃ e, parseExpr "0xffffFFFFffffFFFF > -09223372036854775808" = .ok e ∧
    ∀ check lookup, eval check lookup e = .ok (.tristate .yes) := by
  have hv : "0xffffFFFFffffFFFF".toList ∈ NumberForm.hexadecimal.rule.language :=
    mem_hexadecimal.mpr ⟨'f', _, rfl, by decide, List.all_eq_true.mp (by decide)⟩
  have hw : "-09223372036854775808".toList ∈ NumberForm.decimal.rule.language :=
    mem_decimal.mpr ⟨'0', _, .inr rfl, by decide, List.all_eq_true.mp (by decide)⟩
  have hcomparison : BinaryOp.greater ∈ BinaryOp.comparisons := by decide
  obtain ⟨m, n, hm, hn, -, hcompare⟩ := eval_compare_literals hv hw hcomparison
  have hgreatest : Text.Digits 16 "ffffFFFFffffFFFF".toList 18446744073709551615 :=
    Text.accepts_hexadecimal.digits_of_all (by decide) (by decide) (by decide +kernel)
  have hleast : Text.Digits 10 "09223372036854775808".toList 9223372036854775808 :=
    Text.accepts_decimal.digits_of_all (by decide) (by decide) (by decide +kernel)
  obtain rfl : m = 18446744073709551615 := hm.unique (.hexadecimal (.inl rfl) hgreatest)
  obtain rfl : n = -9223372036854775808 := hn.unique (.decimal (.minus hleast))
  exact hcompare ⟨by decide, by decide⟩ ⟨by decide, by decide⟩

end KconfigLang
