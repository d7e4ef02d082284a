import KconfigLang.Proofs.Token.Gap
import KconfigLang.Proofs.Token.Pattern

/-!
# Maximal munch

Every lexeme is the longest match of a rule, and where none of the rules matches nothing is read.

- `Token.rule`: the rule that a token comes from.
- `LexFailure.Agrees`: the rules give no token, and why.
- `Lexeme.Agrees`: a lexeme is what the rules give.
- `Lexeme.agrees_read`: so is every lexeme that is read; one lemma for each sort of first character.
- `items_longest_match`: the tokens and failures of a stream.
-/

namespace KconfigLang

/-- The rule that a token comes from. -/
def Token.rule : Token → LexRule
  | .keyword .ifBlock => .keyword .ifCondition
  | .keyword k => .keyword k
  | .mark m => .mark m
  | .tristate t => .tristate t
  | .help _ => .help
  | .number _ => .decimal
  | .hexNumber _ => .hexadecimal
  | .string _ _ => .string
  | .ident _ => .ident

/-- The rules give no token at the start of a text: nothing matches, or the longest match is a piece that stands
for none. -/
def LexFailure.Agrees (text piece : List Char) : LexFailure → Prop
  | unexpectedCharacter => LexRule.NoneMatches text
  | unterminatedString => LexRule.unterminated.Wins text piece
  | invalidNumber => LexRule.decimal.Wins text piece ∨ LexRule.hexadecimal.Wins text piece
  | invalidCodePoint _ => LexRule.string.Wins text piece

/-- A lexeme is what the rules give at the start of a text. A help block goes on behind the longest match, which
is its keyword. -/
def Lexeme.Agrees (text : List Char) (l : Lexeme) : Prop :=
  match l.kind with
  | .gap => ∃ r ∈ [LexRule.blanks, .continuation, .comment], r.Wins text (text.take (l.extra + 1))
  | .token t => ∃ n ≤ l.extra, t.rule.Wins text (text.take (n + 1)) ∧ (t.rule ≠ .help → n = l.extra)
  | .failure cause => cause.Agrees text (text.take (l.extra + 1))

namespace LexRule

/-- A match wins if all others are shorter, or as long and of a symbol name. -/
theorem wins_of {r : LexRule} {text w : List Char} (hlead : w <+: text) (hmatch : w ∈ r.language)
    (h : ∀ r' : LexRule, ∀ w' ∈ r'.language, w' <+: text →
      w'.length ≤ w.length ∧ (w' = w → r' = r ∨ r' = .ident)) : r.Wins text w where
  isPrefix := hlead
  matches' := hmatch
  longest r' w' hw' hlead' := (h r' w' hw' hlead').1
  first r' hw := (h r' w hw hlead).2 rfl

theorem length_le_takeWhile {p : Char → Bool} {ds cs : List Char} (h : ds <+: cs)
    (hds : ∀ d ∈ ds, p d = true) : ds.length ≤ (cs.takeWhile p).length := by
  obtain ⟨more, rfl⟩ := h
  rw [List.takeWhile_append_of_pos hds, List.length_append]
  exact Nat.le_add_right _ _

/-- A match starts with the first character of the text, and so does its rule. -/
theorem starts_of_prefix {r : LexRule} {w : List Char} (h : w ∈ r.language) {c : Char} {cs : List Char}
    (hlead : w <+: c :: cs) : ∃ ds, w = c :: ds ∧ ds <+: cs ∧ r.Starts c := by
  obtain ⟨d, ds, rfl, hstarts⟩ := starts_of_mem h
  obtain ⟨rfl, hds⟩ := List.cons_prefix_cons.mp hlead
  exact ⟨ds, rfl, hds, hstarts⟩

end LexRule

namespace Lexeme

open LexRule

theorem take_length_takeWhile (p : Char → Bool) (cs : List Char) :
    cs.take (cs.takeWhile p).length = cs.takeWhile p :=
  (List.prefix_iff_eq_take.mp (List.takeWhile_prefix p)).symm

/-! ## What is skipped -/

/-- No rule but that of blanks starts with a blank. -/
theorem rule_of_space {r : LexRule} {c : Char} (hc : isSpace c = true) (h : r.Starts c) : r = .blanks := by
  have hc' : c = ' ' ∨ c = '\t' ∨ c = '\r' ∨ c = '\n' ∨ c = '\x0c' := by
    simpa [isSpace, or_assoc] using hc
  cases r with
  | blanks => rfl
  | _ => rcases hc' with rfl | rfl | rfl | rfl | rfl <;> simp [Starts] at h

theorem agrees_space {c : Char} (hc : isSpace c = true) (cs : List Char) :
    Agrees (c :: cs) ⟨.gap, (cs.takeWhile isSpace).length⟩ := by
  refine ⟨.blanks, List.mem_cons_self, ?_⟩
  rw [List.take_succ_cons, take_length_takeWhile]
  refine wins_of (List.cons_prefix_cons.mpr ⟨rfl, List.takeWhile_prefix _⟩)
    (mem_blanks.mpr ⟨c, _, rfl, hc, fun d hd => List.mem_takeWhile_imp hd⟩) fun r' w' hw' hlead => ?_
  obtain ⟨ds, rfl, hds, hstarts⟩ := starts_of_prefix hw' hlead
  obtain rfl := rule_of_space hc hstarts
  obtain ⟨_, _, heq, -, hall⟩ := mem_blanks.mp hw'
  obtain ⟨rfl, rfl⟩ := List.cons.inj heq
  exact ⟨Nat.succ_le_succ (length_le_takeWhile hds hall), fun _ => .inl rfl⟩

theorem rule_of_backslash {r : LexRule} (h : r.Starts '\\') : r = .continuation := by
  cases r with
  | continuation => rfl
  | _ => simp [Starts, isSpace] at h

theorem agrees_backslash (cs : List Char) : Agrees ('\\' :: cs) (backslash cs) := by
  have honly (r : LexRule) (w : List Char) (hw : w ∈ r.language) (hlead : w <+: '\\' :: cs) :
      r = .continuation ∧ (w = ['\\', '\n'] ∨ w = ['\\', '\r', '\n']) := by
    obtain ⟨ds, rfl, -, hstarts⟩ := starts_of_prefix hw hlead
    obtain rfl := rule_of_backslash hstarts
    exact ⟨rfl, mem_continuation.mp hw⟩
  unfold backslash
  split
  · refine ⟨.continuation, by simp, wins_of (by simp) (mem_continuation.mpr (.inl rfl)) ?_⟩
    intro r' w' hw' hlead
    obtain ⟨rfl, rfl | rfl⟩ := honly r' w' hw' hlead
    · exact ⟨Nat.le_refl _, fun _ => .inl rfl⟩
    · exact absurd hlead (by simp)
  · refine ⟨.continuation, by simp, wins_of (by simp) (mem_continuation.mpr (.inr rfl)) ?_⟩
    intro r' w' hw' hlead
    obtain ⟨rfl, rfl | rfl⟩ := honly r' w' hw' hlead
    · exact absurd hlead (by simp)
    · exact ⟨Nat.le_refl _, fun _ => .inl rfl⟩
  · rename_i hnewline
    intro r w hw hlead
    obtain ⟨-, rfl | rfl⟩ := honly r w hw hlead
    · exact absurd hlead (by simp)
    · obtain ⟨more, hmore⟩ := hlead
      simp only [List.cons_append, List.nil_append, List.cons.injEq, true_and] at hmore
      exact hnewline more hmore.symm
  · rename_i hnewline hreturn _
    intro r w hw hlead
    obtain ⟨-, rfl | rfl⟩ := honly r w hw hlead
    · obtain ⟨more, hmore⟩ := hlead
      exact hnewline more (List.cons.inj hmore).2.symm
    · obtain ⟨more, hmore⟩ := hlead
      exact hreturn more (List.cons.inj hmore).2.symm

theorem rule_of_hash {r : LexRule} (h : r.Starts '#') : r = .comment := by
  cases r with
  | comment => rfl
  | _ => simp [Starts, isSpace] at h

theorem agrees_comment (cs : List Char) :
    Agrees ('#' :: cs) ⟨.gap, (cs.takeWhile (· ≠ '\n')).length⟩ := by
  refine ⟨.comment, by simp, ?_⟩
  rw [List.take_succ_cons, take_length_takeWhile]
  refine wins_of (List.cons_prefix_cons.mpr ⟨rfl, List.takeWhile_prefix _⟩)
    (mem_comment.mpr ⟨_, rfl, fun d hd => by simpa using List.mem_takeWhile_imp hd⟩) ?_
  intro r' w' hw' hlead
  obtain ⟨ds, rfl, hds, hstarts⟩ := starts_of_prefix hw' hlead
  obtain rfl := rule_of_hash hstarts
  obtain ⟨_, heq, hall⟩ := mem_comment.mp hw'
  obtain ⟨-, rfl⟩ := List.cons.inj heq
  exact ⟨Nat.succ_le_succ (length_le_takeWhile hds fun d hd => by simpa using hall d hd), fun _ => .inl rfl⟩

/-! ## Words -/

/-- The rule that a word belongs to. -/
def wordRule (word : String) : LexRule :=
  if word = "help" then .help else (Token.ofWord word).rule

/-- A keyword is found by its spelling. -/
theorem ofText?_text : ∀ k ∈ Keyword.words, Keyword.ofText? k.text = some k := by
  decide +kernel

theorem rule_ofWord_text {k : Keyword} (h : k ∈ Keyword.words) :
    (Token.ofWord k.text).rule = .keyword k := by
  rw [Token.ofWord, ofText?_text k h]
  cases k
  case ifBlock => exact absurd h (by decide)
  all_goals rfl

theorem ne_help_of_mem_words : ∀ k ∈ Keyword.words, k.text ≠ "help" := by
  decide +kernel

/-- The rules that start with a letter. -/
theorem rule_of_letter {r : LexRule} {c : Char} (hc : c.isAlpha = true) (h : r.Starts c) :
    r = .ident ∨ r = .help ∨ (∃ k, r = .keyword k) ∨ ∃ t, r = .tristate t := by
  cases r with
  | ident => exact .inl rfl
  | help => exact .inr (.inl rfl)
  | keyword k => exact .inr (.inr (.inl ⟨k, rfl⟩))
  | tristate t => exact .inr (.inr (.inr ⟨t, rfl⟩))
  | mark m =>
    simp only [Starts, List.mem_cons, List.not_mem_nil, or_false] at h
    rcases h with rfl | rfl | rfl | rfl | rfl | rfl | rfl | rfl <;> exact absurd hc (by decide)
  | blanks =>
    simp only [Starts, isSpace, Bool.or_eq_true, decide_eq_true_eq] at h
    rcases h with (((rfl | rfl) | rfl) | rfl) | rfl <;> exact absurd hc (by decide)
  | decimal =>
    rcases h with hdigit | rfl
    · exact absurd hc (not_isAlpha_of_isDigit hdigit)
    · exact absurd hc (by decide)
  | _ =>
    obtain rfl := h
    exact absurd hc (by decide)

theorem help_of_isAlpha {c : Char} {ds : List Char} (hc : c.isAlpha = true)
    (h : c :: ds ∈ LexRule.help.language) : c :: ds = "help".toList := by
  rcases h with h | h | h
  · exact h
  all_goals
    rw [(List.cons.inj h).1] at hc
    exact absurd hc (by decide)

/-- The rules that match a word are its own and that of symbol names. -/
theorem rule_of_word {c : Char} {ds : List Char} (hc : c.isAlpha = true) {r : LexRule}
    (h : c :: ds ∈ r.language) : r = wordRule (String.ofList (c :: ds)) ∨ r = .ident := by
  obtain ⟨_, _, heq, hstarts⟩ := starts_of_mem h
  obtain ⟨rfl, rfl⟩ := List.cons.inj heq
  rcases rule_of_letter hc hstarts with rfl | rfl | ⟨k, rfl⟩ | ⟨t, rfl⟩
  · exact .inr rfl
  · rw [help_of_isAlpha hc h]
    exact .inl rfl
  · obtain ⟨hk, hword⟩ := h
    rw [hword, String.ofList_toList, wordRule, if_neg (ne_help_of_mem_words k hk), rule_ofWord_text hk]
    exact .inl rfl
  · have hword : c :: ds = t.text.toList := h
    rw [hword, String.ofList_toList]
    cases t <;> exact .inl (by decide +kernel)

theorem isWordChar_of_mem_text : ∀ k ∈ Keyword.words, ∀ d ∈ k.text.toList, isWordChar d = true := by
  have hall : Keyword.words.all (fun k => k.text.toList.all isWordChar) = true := by decide +kernel
  exact fun k hk => List.all_eq_true.mp (List.all_eq_true.mp hall k hk)

/-- Every match that starts with a letter is made of the characters of symbol names. -/
theorem isWordChar_of_mem_language {c : Char} {ds : List Char} (hc : c.isAlpha = true) {r : LexRule}
    (h : c :: ds ∈ r.language) : ∀ d ∈ ds, isWordChar d = true := by
  obtain ⟨_, _, heq, hstarts⟩ := starts_of_mem h
  obtain ⟨rfl, rfl⟩ := List.cons.inj heq
  suffices hall : ∀ d ∈ c :: ds, isWordChar d = true from (List.forall_mem_cons.mp hall).2
  rcases rule_of_letter hc hstarts with rfl | rfl | ⟨k, rfl⟩ | ⟨t, rfl⟩
  · obtain ⟨_, _, heq, -, hall⟩ := mem_ident.mp h
    obtain ⟨rfl, rfl⟩ := List.cons.inj heq
    exact List.forall_mem_cons.mpr ⟨by simp [isWordChar, Char.isAlphanum, hc], hall⟩
  · rw [help_of_isAlpha hc h]
    exact List.all_eq_true.mp (by decide)
  · obtain ⟨hk, hword⟩ := h
    rw [hword]
    exact isWordChar_of_mem_text k hk
  · have hword : c :: ds = t.text.toList := h
    rw [hword]
    refine List.all_eq_true.mp ?_
    cases t <;> decide

theorem tristate_text_of_ofText? {word : String} {t : Tristate} (h : Tristate.ofText? word = some t) :
    word = t.text := by
  unfold Tristate.ofText? at h
  split at h <;> cases h <;> rfl

/-- A word is a match of its rule. -/
theorem mem_wordRule {c : Char} {ds : List Char} (hc : c.isAlpha = true)
    (hds : ∀ d ∈ ds, isWordChar d = true) : c :: ds ∈ (wordRule (String.ofList (c :: ds))).language := by
  have hlist : (String.ofList (c :: ds)).toList = c :: ds := String.toList_ofList
  unfold wordRule
  split
  · rename_i hhelp
    exact .inl (by rw [← hlist, hhelp])
  · unfold Token.ofWord
    split
    · rename_i k hk
      have hmem : k ∈ Keyword.words := List.mem_of_find?_eq_some hk
      have htext := List.find?_some hk
      have hrule : (Token.keyword k).rule = .keyword k := by
        cases k
        case ifBlock => exact absurd hmem (by decide)
        all_goals rfl
      rw [hrule]
      exact ⟨hmem, by rw [eq_of_beq htext, hlist]⟩
    · rename_i t _ ht
      show c :: ds = t.text.toList
      rw [← tristate_text_of_ofText? ht, hlist]
    · exact mem_ident.mpr ⟨c, ds, rfl, hc, hds⟩

/-- A word wins by its own rule. -/
theorem wordRule_wins {c : Char} (hc : c.isAlpha = true) (cs : List Char) :
    (wordRule (String.ofList (c :: cs.takeWhile isWordChar))).Wins (c :: cs) (c :: cs.takeWhile isWordChar) := by
  refine wins_of (List.cons_prefix_cons.mpr ⟨rfl, List.takeWhile_prefix _⟩)
    (mem_wordRule hc fun d hd => List.mem_takeWhile_imp hd) fun r' w' hw' hlead => ?_
  obtain ⟨ds, rfl, hds, -⟩ := starts_of_prefix hw' hlead
  refine ⟨Nat.succ_le_succ (length_le_takeWhile hds (isWordChar_of_mem_language hc hw')), fun heq => ?_⟩
  exact rule_of_word hc (heq ▸ hw')

theorem agrees_word {c : Char} (hc : c.isAlpha = true) (cs : List Char) :
    Agrees (c :: cs) (word c cs) := by
  have hwins := wordRule_wins hc cs
  have htake : (c :: cs).take ((cs.takeWhile isWordChar).length + 1) = c :: cs.takeWhile isWordChar := by
    rw [List.take_succ_cons, take_length_takeWhile]
  unfold word
  simp only
  split
  · rename_i hhelp
    refine ⟨(cs.takeWhile isWordChar).length, Nat.le_add_right _ _, ?_, fun h => absurd rfl h⟩
    rw [htake]
    rwa [wordRule, if_pos hhelp] at hwins
  · rename_i hhelp
    refine ⟨(cs.takeWhile isWordChar).length, Nat.le_refl _, ?_, fun _ => rfl⟩
    rw [htake]
    rwa [wordRule, if_neg hhelp] at hwins

/-! ## Numbers -/

theorem agrees_decimal {text : List Char} {value : Int} {extra : Nat}
    (h : LexRule.decimal.Wins text (text.take (extra + 1))) : Agrees text (decimal value extra) := by
  unfold decimal
  split
  · exact ⟨extra, Nat.le_refl _, h, fun _ => rfl⟩
  · exact .inl h

theorem agrees_hexadecimal {text : List Char} {value extra : Nat}
    (h : LexRule.hexadecimal.Wins text (text.take (extra + 1))) : Agrees text (hexadecimal value extra) := by
  unfold hexadecimal
  split
  · exact ⟨extra, Nat.le_refl _, h, fun _ => rfl⟩
  · exact .inr h

theorem rule_of_digit {r : LexRule} {c : Char} (hc : c.isDigit = true) (h : r.Starts c) :
    r = .decimal ∨ r = .hexadecimal := by
  cases r with
  | decimal => exact .inl rfl
  | hexadecimal => exact .inr rfl
  | mark m =>
    simp only [Starts, List.mem_cons, List.not_mem_nil, or_false] at h
    rcases h with rfl | rfl | rfl | rfl | rfl | rfl | rfl | rfl <;> exact absurd hc (by decide)
  | blanks =>
    simp only [Starts, isSpace, Bool.or_eq_true, decide_eq_true_eq] at h
    rcases h with (((rfl | rfl) | rfl) | rfl) | rfl <;> exact absurd hc (by decide)
  | help => rcases h with rfl | rfl <;> exact absurd hc (by decide)
  | keyword k => exact absurd h (not_isAlpha_of_isDigit hc)
  | tristate t => exact absurd h (not_isAlpha_of_isDigit hc)
  | ident => exact absurd h (not_isAlpha_of_isDigit hc)
  | _ =>
    obtain rfl := h
    exact absurd hc (by decide)

/-- A decimal number that starts with a digit. -/
theorem decimal_of_digit {c : Char} {ds : List Char} (hc : c.isDigit = true)
    (h : c :: ds ∈ LexRule.decimal.language) : ∀ d ∈ ds, d.isDigit = true := by
  obtain ⟨_, _, heq | heq, -, hall⟩ := mem_decimal.mp h
  · obtain ⟨rfl, rfl⟩ := List.cons.inj heq
    exact hall
  · rw [(List.cons.inj heq).1] at hc
    exact absurd hc (by decide)

theorem decimal_wins {c : Char} (hc : c.isDigit = true) {cs : List Char}
    (hhex : ∀ w ∈ LexRule.hexadecimal.language, ¬ w <+: c :: cs) :
    LexRule.decimal.Wins (c :: cs) (c :: cs.takeWhile Char.isDigit) := by
  refine wins_of (List.cons_prefix_cons.mpr ⟨rfl, List.takeWhile_prefix _⟩)
    (mem_decimal.mpr ⟨c, _, .inl rfl, hc, fun d hd => List.mem_takeWhile_imp hd⟩) ?_
  intro r' w' hw' hlead
  obtain ⟨ds, rfl, hds, hstarts⟩ := starts_of_prefix hw' hlead
  rcases rule_of_digit hc hstarts with rfl | rfl
  · exact ⟨Nat.succ_le_succ (length_le_takeWhile hds (decimal_of_digit hc hw')), fun _ => .inl rfl⟩
  · exact absurd hlead (hhex _ hw')

theorem hexadecimal_wins {ds : List Char} (h : ds.takeWhile Text.isHexDigit ≠ []) :
    LexRule.hexadecimal.Wins ('0' :: 'x' :: ds) ('0' :: 'x' :: ds.takeWhile Text.isHexDigit) := by
  obtain ⟨d, more, hmore⟩ := List.exists_cons_of_ne_nil h
  have hall : ∀ e ∈ d :: more, Text.isHexDigit e = true := hmore ▸ fun e he => List.mem_takeWhile_imp he
  obtain ⟨hd, hmem⟩ := List.forall_mem_cons.mp hall
  refine wins_of (List.cons_prefix_cons.mpr ⟨rfl, List.cons_prefix_cons.mpr ⟨rfl, List.takeWhile_prefix _⟩⟩)
    (mem_hexadecimal.mpr ⟨d, more, by rw [hmore], hd, hmem⟩) fun r' w' hw' hlead => ?_
  obtain ⟨es, rfl, hes, hstarts⟩ := starts_of_prefix hw' hlead
  rcases rule_of_digit (by decide) hstarts with rfl | rfl
  -- A decimal number ends before the `x`.
  · have hdigits := decimal_of_digit (by decide) hw'
    cases es with
    | nil => exact ⟨by simp, fun heq => absurd heq (by simp)⟩
    | cons e es =>
      obtain ⟨rfl, -⟩ := List.cons_prefix_cons.mp hes
      exact absurd (hdigits 'x' List.mem_cons_self) (by decide)
  · obtain ⟨e, fs, heq, he, hfs⟩ := mem_hexadecimal.mp hw'
    obtain ⟨-, rfl⟩ := List.cons.inj heq
    have hlead' := (List.cons_prefix_cons.mp hes).2
    have hlen := length_le_takeWhile hlead' (List.forall_mem_cons.mpr ⟨he, hfs⟩)
    exact ⟨Nat.succ_le_succ (Nat.succ_le_succ hlen), fun _ => .inl rfl⟩

theorem agrees_number {c : Char} (hc : c.isDigit = true) (cs : List Char) :
    Agrees (c :: cs) (number c cs) := by
  by_cases hhex : ∃ ds, c :: cs = '0' :: 'x' :: ds ∧ ds.takeWhile Text.isHexDigit ≠ []
  · obtain ⟨ds, heq, hds⟩ := hhex
    obtain ⟨rfl, rfl⟩ := List.cons.inj heq
    rw [number_hex hds]
    refine agrees_hexadecimal ?_
    rw [List.take_succ_cons, List.take_succ_cons, take_length_takeWhile]
    exact hexadecimal_wins hds
  · have hnone : ∀ w ∈ LexRule.hexadecimal.language, ¬ w <+: c :: cs := by
      intro w hw hlead
      obtain ⟨d, ds, rfl, hd, -⟩ := mem_hexadecimal.mp hw
      obtain ⟨more, hmore⟩ := hlead
      refine hhex ⟨d :: (ds ++ more), hmore.symm, ?_⟩
      rw [List.takeWhile_cons_of_pos hd]
      exact List.cons_ne_nil _ _
    have hnumber : number c cs = decimal (Text.digitsValue 10 (c :: cs.takeWhile Char.isDigit))
        (cs.takeWhile Char.isDigit).length := by
      refine number_of_no_hexDigits fun ds heq => ?_
      by_contra hne
      exact hhex ⟨ds, heq, hne⟩
    rw [hnumber]
    refine agrees_decimal ?_
    rw [List.take_succ_cons, take_length_takeWhile]
    exact decimal_wins hc hnone

/-! ## Dashes -/

theorem rule_of_dash {r : LexRule} (h : r.Starts '-') : r = .decimal ∨ r = .help := by
  cases r with
  | decimal => exact .inl rfl
  | help => exact .inr rfl
  | _ => simp [Starts, isSpace] at h

/-- A help keyword with dashes is one of two. -/
theorem help_of_dash {ds : List Char} : '-' :: ds ∈ LexRule.help.language ↔ ds ∈ dashedHelps := by
  have hdashed : ds ∈ dashedHelps ↔ ds = "-help--".toList ∨ ds = "--help---".toList := by
    simp [dashedHelps]
  rw [hdashed]
  constructor
  · rintro (heq | heq | heq)
    · exact absurd (List.cons.inj heq).1 (by decide)
    · exact .inl (List.cons.inj heq).2
    · exact .inr (List.cons.inj heq).2
  · rintro (rfl | rfl)
    · exact .inr (.inl rfl)
    · exact .inr (.inr rfl)

/-- The two keywords differ early. -/
theorem dashedHelps_unique {ds es cs : List Char} (hds : ds ∈ dashedHelps) (hes : es ∈ dashedHelps)
    (h : ds <+: cs) (h' : es <+: cs) : ds = es := by
  have hapart : ∀ ds ∈ dashedHelps, ∀ es ∈ dashedHelps, ds <+: es → ds = es := by decide
  rcases Nat.le_total ds.length es.length with hlen | hlen
  · exact hapart ds hds es hes (List.prefix_of_prefix_length_le h h' hlen)
  · exact (hapart es hes ds hds (List.prefix_of_prefix_length_le h' h hlen)).symm

/-- What may be read from a dash: digits or a keyword. -/
theorem match_of_dash {r : LexRule} {w cs : List Char} (h : w ∈ r.language) (hlead : w <+: '-' :: cs) :
    ∃ ds, w = '-' :: ds ∧ ds <+: cs ∧ (r = .decimal ∧ ds ≠ [] ∧ (∀ d ∈ ds, d.isDigit = true) ∨
      r = .help ∧ ds ∈ dashedHelps) := by
  obtain ⟨ds, rfl, hds, hstarts⟩ := starts_of_prefix h hlead
  refine ⟨ds, rfl, hds, ?_⟩
  rcases rule_of_dash hstarts with rfl | rfl
  · obtain ⟨d, es, heq | heq, hd, hall⟩ := mem_decimal.mp h
    · rw [← (List.cons.inj heq).1] at hd
      exact absurd hd (by decide)
    · rw [(List.cons.inj heq).2]
      exact .inl ⟨rfl, List.cons_ne_nil _ _, List.forall_mem_cons.mpr ⟨hd, hall⟩⟩
  · exact .inr ⟨rfl, help_of_dash.mp h⟩

theorem takeWhile_ne_nil {p : Char → Bool} {ds cs : List Char} (hne : ds ≠ []) (h : ds <+: cs)
    (hds : ∀ d ∈ ds, p d = true) : cs.takeWhile p ≠ [] := by
  have hlen := length_le_takeWhile h hds
  have hpos := List.length_pos_iff.mpr hne
  exact List.length_pos_iff.mp (by omega)

theorem agrees_negative {cs : List Char} (h : cs.takeWhile Char.isDigit ≠ []) (value : Int) :
    Agrees ('-' :: cs) (decimal value (cs.takeWhile Char.isDigit).length) := by
  refine agrees_decimal ?_
  rw [List.take_succ_cons, take_length_takeWhile]
  obtain ⟨d, ds, hdigits⟩ := List.exists_cons_of_ne_nil h
  have hall : ∀ e ∈ d :: ds, e.isDigit = true := hdigits ▸ fun e he => List.mem_takeWhile_imp he
  obtain ⟨hd, hds⟩ := List.forall_mem_cons.mp hall
  refine wins_of (List.cons_prefix_cons.mpr ⟨rfl, List.takeWhile_prefix _⟩)
    (mem_decimal.mpr ⟨d, ds, .inr (by rw [hdigits]), hd, hds⟩) fun r' w' hw' hlead => ?_
  obtain ⟨es, rfl, hes, ⟨rfl, -, hdigit⟩ | ⟨-, hkeyword⟩⟩ := match_of_dash hw' hlead
  · exact ⟨Nat.succ_le_succ (length_le_takeWhile hes hdigit), fun _ => .inl rfl⟩
  -- A help keyword goes on with a dash, and the text with a digit.
  · obtain ⟨more, rfl⟩ := hes
    simp only [dashedHelps, List.mem_cons, List.not_mem_nil, or_false] at hkeyword
    rcases hkeyword with rfl | rfl <;> exact absurd rfl h

theorem agrees_dashedHelp {cs keyword : List Char} (hdigits : cs.takeWhile Char.isDigit = [])
    (h : keyword ∈ dashedHelps) (hlead : keyword <+: cs) :
    Agrees ('-' :: cs) (help keyword.length cs) := by
  refine ⟨keyword.length, Nat.le_add_right _ _, ?_, fun hne => absurd rfl hne⟩
  rw [List.take_succ_cons, ← List.prefix_iff_eq_take.mp hlead]
  refine wins_of (List.cons_prefix_cons.mpr ⟨rfl, hlead⟩) (help_of_dash.mpr h) fun r' w' hw' hlead' => ?_
  obtain ⟨es, rfl, hes, ⟨-, hne, hdigit⟩ | ⟨rfl, hkeyword⟩⟩ := match_of_dash hw' hlead'
  · exact absurd hdigits (takeWhile_ne_nil hne hes hdigit)
  · rw [dashedHelps_unique hkeyword h hes hlead]
    exact ⟨Nat.le_refl _, fun _ => .inl rfl⟩

theorem agrees_dash (cs : List Char) : Agrees ('-' :: cs) (dash cs) := by
  unfold dash
  simp only
  split
  · rename_i hdigits
    exact agrees_negative (by simpa using hdigits) _
  · rename_i hdigits
    have hdigits : cs.takeWhile Char.isDigit = [] := by simpa using hdigits
    split
    · rename_i keyword hfind
      have hfound := List.find?_some hfind
      exact agrees_dashedHelp hdigits (List.mem_of_find?_eq_some hfind) (List.isPrefixOf_iff_prefix.mp hfound)
    · rename_i hfind
      intro r w hw hlead
      obtain ⟨es, rfl, hes, ⟨-, hne, hdigit⟩ | ⟨-, hkeyword⟩⟩ := match_of_dash hw hlead
      · exact takeWhile_ne_nil hne hes hdigit hdigits
      · exact List.find?_eq_none.mp hfind es hkeyword (List.isPrefixOf_iff_prefix.mpr hes)

/-! ## Literals -/

end Lexeme

namespace Literal

theorem Closes.getLast? {w : List Char} (h : Closes w) : w.getLast? = some '"' := by
  induction h with
  | close => rfl
  | quote more ih => rw [List.getLast?_cons_cons, List.getLast?_cons, ih]; rfl
  | group _ _ _ ih => rw [List.getLast?_append, ih]; rfl
  | char _ _ _ ih => rw [List.getLast?_cons, ih]; rfl

theorem Closes.mem_quote {w : List Char} (h : Closes w) : '"' ∈ w :=
  List.mem_of_getLast? h.getLast?

/-- Where a literal closes, only a code point can be wrong with it. -/
theorem Closes.eq_invalidCodePoint {w : List Char} (h : Closes w) {cause : LexFailure}
    (hdecode : decode (String.ofList ('"' :: w)) = .error cause) :
    ∃ digits, cause = .invalidCodePoint digits := by
  simp only [decode, String.toList_ofList, h.getLast?, if_true] at hdecode
  split at hdecode
  · exact absurd hdecode (by simp)
  · exact ⟨_, (Except.error.inj hdecode).symm⟩

/-- Up to where a literal ends it is one. -/
theorem closes_of_literalLength? {cs : List Char} {n : Nat} (h : literalLength? cs = some n) :
    Closes (cs.take n) := by
  fun_induction literalLength? cs generalizing n with
  | case1 => exact absurd h (Option.some_ne_none _).symm
  | case2 cs m hm ih =>
    obtain rfl : m + 2 = n := Option.some.inj h
    exact .quote (ih hm)
  | case3 cs hm ih =>
    obtain rfl : 1 = n := Option.some.inj h
    exact .close
  | case4 cs hcs =>
    obtain rfl : 1 = n := Option.some.inj h
    exact .close
  | case5 => exact absurd h (Option.some_ne_none _).symm
  | case6 c cs _ hquote hline digits hgroup m hm ih =>
    obtain rfl : m + groupLength digits = n := Option.some.inj h
    obtain ⟨hlen, hdigits, more, hcs⟩ := group?_eq_some_iff.mp hgroup
    rw [← hcs] at hm ih ⊢
    rw [List.drop_left' (length_groupText digits)] at hm ih
    rw [Nat.add_comm, ← length_groupText, List.take_length_add_append]
    exact .group hlen hdigits (ih hm)
  | case7 c cs _ hquote hline digits hgroup hm ih =>
    obtain rfl : 2 = n := Option.some.inj h
    obtain ⟨-, -, more, hcs⟩ := group?_eq_some_iff.mp hgroup
    rw [← hcs]
    exact .char (by decide) (by decide) .close
  | case8 c cs _ hquote hline hgroup ih =>
    obtain ⟨m, hm, rfl⟩ := Option.map_eq_some_iff.mp h
    exact .char hquote hline (ih hm)

/-- A quote is a closing one at the latest. -/
theorem exists_literalLength?_quote (cs : List Char) : ∃ n, literalLength? ('"' :: cs) = some n ∧ 1 ≤ n := by
  by_cases hcs : ∃ ds, cs = '"' :: ds
  · obtain ⟨ds, rfl⟩ := hcs
    rw [literalLength?]
    split
    · exact ⟨_, rfl, Nat.le_add_left _ _⟩
    · exact ⟨_, rfl, Nat.le_refl _⟩
  · exact ⟨1, literalLength?_of_closed fun ds hds => hcs ⟨ds, hds⟩, Nat.le_refl _⟩

/-- A text that starts with a group closes at the quote within the group or later. -/
theorem exists_literalLength?_group {cs digits : List Char} (h : group? cs = some digits) :
    ∃ n, literalLength? cs = some n ∧ 2 ≤ n := by
  obtain ⟨-, -, more, rfl⟩ := group?_eq_some_iff.mp h
  have hcons : groupText digits ++ more = '[' :: '"' :: (digits ++ ['"', ']'] ++ more) := rfl
  rw [hcons] at h ⊢
  rw [literalLength?]
  · rw [if_neg (by decide)]
    simp only [h]
    split
    · exact ⟨_, rfl, by simp only [groupLength]; omega⟩
    · exact ⟨_, rfl, Nat.le_refl _⟩
  · exact fun _ hc => absurd hc (by decide)
  · decide

/-- The quote within a group is not doubled, so a literal that goes on behind the bracket ends with it. -/
theorem Closes.length_le_of_group {c : Char} {cs digits w : List Char} (hgroup : group? (c :: cs) = some digits)
    {n : Nat} (hn : literalLength? cs = some n) (hle : w.length ≤ n) : w.length ≤ 1 := by
  obtain ⟨hlen, hdigits, more, heq⟩ := group?_eq_some_iff.mp hgroup
  obtain ⟨-, rfl⟩ := List.cons.inj heq
  obtain ⟨d, ds, rfl⟩ : ∃ d ds, digits = d :: ds := List.exists_cons_of_length_pos (by omega)
  have hlone : literalLength? ('"' :: (d :: ds ++ ['"', ']'] ++ more)) = some 1 := by
    refine literalLength?_of_closed fun es hes => ?_
    obtain ⟨rfl, -⟩ := List.cons.inj hes
    exact absurd (hdigits '"' List.mem_cons_self) (by decide)
  obtain rfl := Option.some.inj (hlone.symm.trans hn)
  exact hle

/-- A literal reaches at least as far as every text that closes it. -/
theorem Closes.exists_literalLength? {w : List Char} (h : Closes w) {cs : List Char} (hlead : w <+: cs) :
    ∃ n, literalLength? cs = some n ∧ w.length ≤ n := by
  induction h generalizing cs with
  | close =>
    obtain ⟨more, rfl⟩ := hlead
    exact exists_literalLength?_quote more
  | @quote w _ ih =>
    obtain ⟨more, rfl⟩ := hlead
    obtain ⟨n, hn, hle⟩ := ih (List.prefix_append w more)
    refine ⟨n + 2, ?_, by simpa using hle⟩
    show literalLength? ('"' :: '"' :: (w ++ more)) = _
    rw [literalLength?, hn]
  | @group digits w hlen hhex _ ih =>
    obtain ⟨more, rfl⟩ := hlead
    obtain ⟨n, hn, hle⟩ := ih (List.prefix_append w more)
    refine ⟨n + groupLength digits, ?_, by simp; omega⟩
    rw [List.append_assoc]
    rw [literalLength?_groupText (group?_eq_some_iff.mpr ⟨hlen, hhex, List.prefix_append _ _⟩), hn]
  | @char c w hquote hline _ ih =>
    obtain ⟨more, rfl⟩ := hlead
    obtain ⟨n, hn, hle⟩ := ih (List.prefix_append w more)
    rw [List.cons_append]
    cases hgroup : group? (c :: (w ++ more)) with
    | none =>
      refine ⟨n + 1, ?_, Nat.succ_le_succ hle⟩
      rw [literalLength?_of_group_eq_none hquote hline hgroup, hn]
      rfl
    | some digits =>
      obtain ⟨m, hm, hge⟩ := exists_literalLength?_group hgroup
      have hone := Closes.length_le_of_group hgroup hn hle
      exact ⟨m, hm, Nat.le_trans (Nat.succ_le_succ hone) hge⟩

end Literal

namespace Lexeme

open LexRule

theorem rule_of_quote {r : LexRule} (h : r.Starts '"') : r = .string ∨ r = .unterminated := by
  cases r with
  | string => exact .inl rfl
  | unterminated => exact .inr rfl
  | _ => simp [Starts, isSpace] at h

/-- What may be read from a quote. -/
theorem match_of_quote {r : LexRule} {w cs : List Char} (h : w ∈ r.language) (hlead : w <+: '"' :: cs) :
    ∃ ds, w = '"' :: ds ∧ ds <+: cs ∧
      (r = .string ∧ Literal.Closes ds ∨ r = .unterminated ∧ ∀ d ∈ ds, d ≠ '"' ∧ d ≠ '\n') := by
  obtain ⟨ds, rfl, hds, hstarts⟩ := starts_of_prefix h hlead
  refine ⟨ds, rfl, hds, ?_⟩
  rcases rule_of_quote hstarts with rfl | rfl
  · obtain ⟨body, heq, hbody⟩ := mem_string.mp h
    obtain ⟨-, rfl⟩ := List.cons.inj heq
    exact .inl ⟨rfl, hbody⟩
  · obtain ⟨body, heq, hbody⟩ := mem_unterminated.mp h
    obtain ⟨-, rfl⟩ := List.cons.inj heq
    exact .inr ⟨rfl, hbody⟩

theorem unterminated_wins {cs : List Char} (h : Literal.literalLength? cs = none) :
    LexRule.unterminated.Wins ('"' :: cs) ('"' :: cs.takeWhile fun c => c ≠ '"' && c ≠ '\n') := by
  refine wins_of (List.cons_prefix_cons.mpr ⟨rfl, List.takeWhile_prefix _⟩)
    (mem_unterminated.mpr ⟨_, rfl, fun d hd => by simpa using List.mem_takeWhile_imp hd⟩) ?_
  intro r' w' hw' hlead
  obtain ⟨ds, rfl, hds, ⟨-, hcloses⟩ | ⟨rfl, hall⟩⟩ := match_of_quote hw' hlead
  · obtain ⟨n, hn, -⟩ := hcloses.exists_literalLength? hds
    exact absurd (h.symm.trans hn) (Option.some_ne_none n).symm
  · refine ⟨Nat.succ_le_succ (length_le_takeWhile hds fun d hd => ?_), fun _ => .inl rfl⟩
    simpa using hall d hd

theorem string_wins {cs : List Char} {n : Nat} (h : Literal.literalLength? cs = some n) :
    LexRule.string.Wins ('"' :: cs) ('"' :: cs.take n) := by
  have hcloses := Literal.closes_of_literalLength? h
  have hquote := hcloses.mem_quote
  refine wins_of (List.cons_prefix_cons.mpr ⟨rfl, List.take_prefix n cs⟩) (mem_string.mpr ⟨_, rfl, hcloses⟩) ?_
  intro r' w' hw' hlead
  obtain ⟨ds, rfl, hds, ⟨rfl, hcloses'⟩ | ⟨-, hall⟩⟩ := match_of_quote hw' hlead
  · obtain ⟨m, hm, hle⟩ := hcloses'.exists_literalLength? hds
    obtain rfl := Option.some.inj (h.symm.trans hm)
    rw [List.length_cons, List.length_cons, List.length_take_of_le (Literal.literalLength?_take_append h).1]
    exact ⟨Nat.succ_le_succ hle, fun _ => .inl rfl⟩
  -- What has no quote ends before the closing one.
  · have hnot : ¬ cs.take n <+: ds := fun hsub => (hall '"' (hsub.subset hquote)).1 rfl
    refine ⟨Nat.succ_le_succ ?_, fun heq => absurd ((List.cons.inj heq).2 ▸ List.prefix_rfl) hnot⟩
    rcases Nat.le_total ds.length (cs.take n).length with hle | hle
    · exact hle
    · exact absurd (List.prefix_of_prefix_length_le (List.take_prefix n cs) hds hle) hnot

theorem agrees_string (cs : List Char) : Agrees ('"' :: cs) (string cs) := by
  unfold string
  split
  · rename_i hnone
    show LexRule.unterminated.Wins _ _
    rw [List.take_succ_cons, take_length_takeWhile]
    exact unterminated_wins hnone
  · rename_i n hn
    have hwins := string_wins hn
    rw [← List.take_succ_cons] at hwins
    simp only
    split
    · exact ⟨n, Nat.le_refl _, hwins, fun _ => rfl⟩
    · rename_i hdecode
      obtain ⟨digits, rfl⟩ := (Literal.closes_of_literalLength? hn).eq_invalidCodePoint hdecode
      exact hwins

/-! ## Marks -/

/-- The characters that no rule but those of marks starts with. -/
theorem rule_of_other {r : LexRule} {c : Char} (hspace : ¬ isSpace c = true) (hbackslash : c ≠ '\\')
    (hhash : c ≠ '#') (halpha : ¬ c.isAlpha = true) (hdigit : ¬ c.isDigit = true) (hdash : c ≠ '-')
    (hquote : c ≠ '"') (h : r.Starts c) : ∃ m, r = .mark m := by
  cases r with
  | mark m => exact ⟨m, rfl⟩
  | blanks => exact absurd h hspace
  | continuation => exact absurd h hbackslash
  | comment => exact absurd h hhash
  | keyword k => exact absurd h halpha
  | tristate t => exact absurd h halpha
  | ident => exact absurd h halpha
  | help => exact h.elim (fun hc => absurd (hc ▸ by decide) halpha) (fun hc => absurd hc hdash)
  | decimal => exact h.elim (fun hc => absurd hc hdigit) (fun hc => absurd hc hdash)
  | hexadecimal => exact absurd (h ▸ by decide) hdigit
  | string => exact absurd h hquote
  | unterminated => exact absurd h hquote

theorem mark_text_injective : ∀ m m' : Mark, m.text.toList = m'.text.toList → m = m' := by
  intro m m'
  cases m <;> cases m' <;> decide

/-- A mark wins where only marks start and none that is longer stands. -/
theorem mark_wins {c : Char} {cs : List Char} (hmarks : ∀ r : LexRule, r.Starts c → ∃ m, r = .mark m) {m : Mark}
    (hlead : m.text.toList <+: c :: cs)
    (hlongest : ∀ m' : Mark, m'.text.toList <+: c :: cs → m'.text.toList.length ≤ m.text.toList.length) :
    (LexRule.mark m).Wins (c :: cs) m.text.toList := by
  refine wins_of hlead rfl fun r' w' hw' hlead' => ?_
  obtain ⟨ds, rfl, -, hstarts⟩ := starts_of_prefix hw' hlead'
  obtain ⟨m', rfl⟩ := hmarks r' hstarts
  have htext : c :: ds = m'.text.toList := hw'
  rw [htext] at hlead' ⊢
  exact ⟨hlongest m' hlead', fun heq => .inl (mark_text_injective _ _ heq ▸ rfl)⟩

/-- No mark is longer than two characters. -/
theorem length_mark_le (m : Mark) : m.text.toList.length ≤ 2 := by
  cases m <;> decide

theorem agrees_mark {c : Char} (hmarks : ∀ r : LexRule, r.Starts c → ∃ m, r = .mark m) (cs : List Char) :
    Agrees (c :: cs) (mark c cs) := by
  have htwo {m : Mark} {ds : List Char} (hlen : m.text.toList.length = 2) (hcs : c :: cs = m.text.toList ++ ds) :
      Agrees (c :: cs) ⟨.token (.mark m), 1⟩ := by
    refine ⟨1, Nat.le_refl _, ?_, fun _ => rfl⟩
    have htake : (c :: cs).take (1 + 1) = m.text.toList := by rw [hcs, List.take_left' hlen]
    rw [htake]
    exact mark_wins hmarks (hcs ▸ List.prefix_append _ _) fun m' _ => hlen ▸ length_mark_le m'
  have hone {m : Mark} (htext : m.text.toList = [c])
      (hno : ∀ m' : Mark, m'.text.toList <+: c :: cs → m'.text.toList.length ≤ 1) :
      Agrees (c :: cs) ⟨.token (.mark m), 0⟩ := by
    refine ⟨0, Nat.le_refl _, ?_, fun _ => rfl⟩
    show (LexRule.mark m).Wins (c :: cs) [c]
    rw [← htext]
    exact mark_wins hmarks (htext ▸ by simp) fun m' hlead => by rw [htext]; exact hno m' hlead
  unfold mark
  split
  · exact htwo rfl rfl
  · exact htwo rfl rfl
  · exact htwo rfl rfl
  · exact htwo rfl rfl
  · exact htwo rfl rfl
  · refine hone rfl fun m' hlead => ?_
    cases m' <;> simp [Mark.text] at hlead ⊢
  · rename_i hnext
    refine hone rfl fun m' ⟨tail, htail⟩ => ?_
    cases m' <;> simp [Mark.text] at htail ⊢
    exact hnext tail htail.symm
  · rename_i hnext
    refine hone rfl fun m' ⟨tail, htail⟩ => ?_
    cases m' <;> simp [Mark.text] at htail ⊢
    exact hnext tail htail.symm
  · rename_i hnext
    refine hone rfl fun m' ⟨tail, htail⟩ => ?_
    cases m' <;> simp [Mark.text] at htail ⊢
    exact hnext tail htail.symm
  · refine hone rfl fun m' hlead => ?_
    cases m' <;> simp [Mark.text] at hlead ⊢
  · refine hone rfl fun m' hlead => ?_
    cases m' <;> simp [Mark.text] at hlead ⊢
  · rename_i hequal hless hgreater hnot hleft hright _ _ _ hand hor
    intro r w hw hlead
    obtain ⟨ds, rfl, ⟨tail, rfl⟩, hstarts⟩ := starts_of_prefix hw hlead
    obtain ⟨m, rfl⟩ := hmarks r hstarts
    cases m with
    | equal => exact hequal (List.cons.inj hw).1
    | notEqual => exact hnot (List.cons.inj hw).1
    | less => exact hless (List.cons.inj hw).1
    | lessEqual => exact hless (List.cons.inj hw).1
    | greater => exact hgreater (List.cons.inj hw).1
    | greaterEqual => exact hgreater (List.cons.inj hw).1
    | not => exact hnot (List.cons.inj hw).1
    | leftParen => exact hleft (List.cons.inj hw).1
    | rightParen => exact hright (List.cons.inj hw).1
    | and => exact hand tail (List.cons.inj hw).1 (congrArg (· ++ tail) (List.cons.inj hw).2)
    | or => exact hor tail (List.cons.inj hw).1 (congrArg (· ++ tail) (List.cons.inj hw).2)

/-! ## All lexemes -/

/-- Every lexeme is what the rules give. -/
theorem agrees_read (c : Char) (cs : List Char) : Agrees (c :: cs) (read c cs) := by
  unfold read
  split
  · exact agrees_space ‹_› cs
  split
  · rename_i hc
    exact hc ▸ agrees_backslash cs
  split
  · rename_i hc
    exact hc ▸ agrees_comment cs
  split
  · exact agrees_word ‹_› cs
  split
  · exact agrees_number ‹_› cs
  split
  · rename_i hc
    exact hc ▸ agrees_dash cs
  split
  · rename_i hc
    exact hc ▸ agrees_string cs
  · rename_i hspace hbackslash hhash halpha hdigit hdash hquote
    exact agrees_mark (fun r => rule_of_other hspace hbackslash hhash halpha hdigit hdash hquote) cs

end Lexeme

/-! ## Streams -/

/-- What the rules say of an item that covers `piece`, where `after` is the text behind it. -/
def StreamItem.Agrees (item : StreamItem) (piece after : List Char) : Prop :=
  match item.content with
  | .ok t => (∃ w, w <+: piece ∧ t.rule.Wins (piece ++ after) w ∧ (t.rule ≠ .help → w = piece)) ∧
      ∀ text, t.kept? = some text → piece = text.toList
  | .error cause => cause.Agrees (piece ++ after) piece

namespace Cursor

/-- Where an `if` stands does not change how it is written. -/
theorem rule_settle (cur : Cursor) (t : Token) : (cur.settle t).rule = t.rule := by
  unfold settle
  split
  · split <;> rfl
  · rfl

theorem kept_settle (cur : Cursor) (t : Token) : (cur.settle t).kept? = t.kept? := by
  unfold settle
  split <;> rfl

/-- The next item agrees with the rules. -/
theorem agrees_of_next? {cur after : Cursor} {item : StreamItem} (h : cur.next? = some (item, after)) :
    ∃ before taken, cur.rest = before ++ (item.head :: taken) ++ after.rest ∧
      item.start = cur.offset + Text.byteLength before ∧
      item.stop = cur.offset + Text.byteLength (before ++ item.head :: taken) ∧
      after.offset = item.stop ∧ item.Agrees (item.head :: taken) after.rest := by
  obtain ⟨ps, taken, hrest, -, hextra, hstart, hstop, hoffset, hcontent⟩ := next?_cases h
  have hagrees := Lexeme.agrees_read item.head (taken ++ after.rest)
  refine ⟨gapChars ps, taken, by simp [hrest], hstart, ?_, hoffset, ?_⟩
  · rw [hstop, hstart, Text.byteLength_append, Nat.add_assoc]
  have hpiece : (item.head :: (taken ++ after.rest)).take (taken.length + 1) = item.head :: taken := by
    rw [List.take_succ_cons, List.take_left]
  rcases hcontent with ⟨t, hkind, hcontent, -⟩ | ⟨cause, hkind, hcontent⟩
  · simp only [Lexeme.Agrees, hkind, hextra] at hagrees
    simp only [StreamItem.Agrees, hcontent, rule_settle, kept_settle]
    obtain ⟨n, hle, hwins, hwhole⟩ := hagrees
    refine ⟨⟨_, ?_, hwins, fun hhelp => ?_⟩, fun text htext => ?_⟩
    · rw [← hpiece]
      exact List.take_prefix_take_left (Nat.succ_le_succ hle)
    · rw [hwhole hhelp, hpiece]
    · have hread : Lexeme.read item.head (taken ++ after.rest) = ⟨.token t, taken.length⟩ := by
        rw [← hkind, ← hextra]
      simpa using Lexeme.kept_of_read hread htext
  · simp only [Lexeme.Agrees, hkind, hextra, hpiece] at hagrees
    simp only [StreamItem.Agrees, hcontent]
    exact hagrees

/-- Every item agrees with the rules. -/
theorem agrees_of_mem_items {cur : Cursor} {item : StreamItem} (h : item ∈ cur.items) :
    ∃ before piece after, cur.rest = before ++ piece ++ after ∧
      item.start = cur.offset + Text.byteLength before ∧
      item.stop = cur.offset + Text.byteLength (before ++ piece) ∧ item.Agrees piece after := by
  fun_induction items cur with
  | case1 => exact absurd h List.not_mem_nil
  | case2 cur first after hnext ih =>
    obtain ⟨before, taken, hrest, hstart, hstop, hoffset, hagrees⟩ := agrees_of_next? hnext
    rcases List.mem_cons.mp h with rfl | hmem
    · exact ⟨before, _, after.rest, hrest, hstart, hstop, hagrees⟩
    · obtain ⟨before', piece, after', hrest', hstart', hstop', hagrees'⟩ := ih hmem
      refine ⟨before ++ first.head :: taken ++ before', piece, after', ?_, ?_, ?_, hagrees'⟩
      · rw [hrest, hrest']
        simp only [List.append_assoc]
      · rw [hstart', hoffset, hstop, Nat.add_assoc, Text.byteLength_append (before ++ first.head :: taken)]
      · rw [hstop', hoffset, hstop, Nat.add_assoc, List.append_assoc _ before',
          Text.byteLength_append (before ++ first.head :: taken)]

end Cursor

/-- A name is no keyword, no tristate letter and no help keyword. -/
theorem LexRule.Wins.ident_ne {name : String} {text : List Char} (h : LexRule.ident.Wins text name.toList) :
    (∀ k : Keyword, name ≠ k.text) ∧ (∀ t : Tristate, name ≠ t.text) ∧ name ≠ "help" := by
  have hword {k : Keyword} (hk : k ∈ Keyword.words) : name ≠ k.text := by
    rintro rfl
    rcases h.first (.keyword k) ⟨hk, rfl⟩ with heq | heq <;> cases heq
  refine ⟨fun k => ?_, ?_, ?_⟩
  · by_cases hk : k ∈ Keyword.words
    · exact hword hk
    -- Both readings of an `if` are written alike.
    · obtain rfl : k = .ifBlock := by
        revert hk
        cases k <;> decide
      exact hword (k := .ifCondition) (by decide)
  · rintro t rfl
    rcases h.first (.tristate t) rfl with heq | heq <;> cases heq
  · rintro rfl
    rcases h.first .help (.inl rfl) with heq | heq <;> cases heq

/-- A stream reads the longest match at each place: what a token covers is a match of its own rule, no longer piece
of the text there is a match of any rule, and of the rules that match the same the names come last, so that no
name is a keyword; a help block starts so with its keyword. No character is unexpected where a rule matches, and
the other failures are matches of rules that stand for no token. -/
theorem items_longest_match (cs : List Char) : ∀ item ∈ (Cursor.ofChars cs).items, ∃ before piece after,
    cs = before ++ piece ++ after ∧ item.start = Text.byteLength before ∧
      item.stop = Text.byteLength (before ++ piece) ∧
      (∀ t, item.content = .ok t → ∃ w, w <+: piece ∧ t.rule.Wins (piece ++ after) w ∧
        (t.rule ≠ .help → w = piece)) ∧
      (∀ name, item.content = .ok (.ident name) → piece = name.toList ∧
        (∀ k : Keyword, name ≠ k.text) ∧ (∀ t : Tristate, name ≠ t.text) ∧ name ≠ "help") ∧
      ∀ cause, item.content = .error cause → cause.Agrees (piece ++ after) piece := by
  intro item hitem
  obtain ⟨before, piece, after, hcs, hstart, hstop, hagrees⟩ := Cursor.agrees_of_mem_items hitem
  rw [show (Cursor.ofChars cs).offset = 0 from rfl, Nat.zero_add] at hstart hstop
  refine ⟨before, piece, after, hcs, hstart, hstop, fun t ht => ?_, fun name hname => ?_, fun cause hcause => ?_⟩
  · rw [StreamItem.Agrees, ht] at hagrees
    exact hagrees.1
  · rw [StreamItem.Agrees, hname] at hagrees
    obtain ⟨⟨w, -, hwins, hwhole⟩, hkept⟩ := hagrees
    obtain rfl := hkept name rfl
    have hident : LexRule.ident.Wins (name.toList ++ after) name.toList :=
      hwhole (fun h => LexRule.noConfusion h) ▸ hwins
    exact ⟨rfl, hident.ident_ne⟩
  · rw [StreamItem.Agrees, hcause] at hagrees
    exact hagrees

/-- A name that starts with a keyword, an operator that starts with another one, and a number before a name. -/
def munchedText : List Char :=
  "configs<=0xg".toList

/-- The tokens of that text. -/
def munchedTokens : List Lexed :=
  [⟨.ident "configs", ⟨.root, 0, 7, 1, 1⟩⟩, ⟨.mark .lessEqual, ⟨.root, 7, 9, 1, 8⟩⟩,
    ⟨.number 0, ⟨.root, 9, 10, 1, 10⟩⟩, ⟨.ident "xg", ⟨.root, 10, 12, 1, 11⟩⟩]

theorem munched_longest_match : ∃ item ∈ (Cursor.ofChars munchedText).items,
    item.content = .ok (.ident "configs") ∧ ∃ before piece after,
      munchedText = before ++ piece ++ after ∧ item.start = Text.byteLength before ∧
        item.stop = Text.byteLength (before ++ piece) ∧
        (∀ t, item.content = .ok t → ∃ w, w <+: piece ∧ t.rule.Wins (piece ++ after) w ∧
          (t.rule ≠ .help → w = piece)) ∧
        (∀ name, item.content = .ok (.ident name) → piece = name.toList ∧
          (∀ k : Keyword, name ≠ k.text) ∧ (∀ t : Tristate, name ≠ t.text) ∧ name ≠ "help") ∧
        ∀ cause, item.content = .error cause → cause.Agrees (piece ++ after) piece := by
  have htokens : tokenize (.ofChars .root munchedText) munchedText = .ok munchedTokens := by decide +kernel
  obtain ⟨item, hitem, hcontent⟩ := exists_item_of_mem htokens List.mem_cons_self
  exact ⟨item, hitem, hcontent, items_longest_match munchedText item hitem⟩

end KconfigLang
