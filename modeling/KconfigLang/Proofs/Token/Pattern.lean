import KconfigLang.Proofs.Token.Literal
import KconfigLang.Proofs.Token.Spelling
import Mathlib.Computability.Language

/-!
# Lexical rules

The patterns of lexemes as languages, each written as the regular expression that stands beside it.

- `LexRule`: the rules, those for what is skipped included.
- `LexRule.language`: what a rule matches.
- `LexRule.Wins`: a rule has the longest match at the start of a text, and no rule that comes before it has it too.
- `mem_string`: string literals read from the left.
- `LexRule.starts_of_mem`: which characters the matches of a rule start with.
-/

namespace KconfigLang

open scoped Computability

/-! ## Characters -/

/-- Whether a character is in one of some ranges. -/
def InRanges (ranges : List (Char × Char)) (c : Char) : Prop :=
  ∃ r ∈ ranges, r.1 ≤ c ∧ c ≤ r.2

/-- One character with a property. -/
def oneChar (p : Char → Prop) : Language Char :=
  {w | ∃ c, w = [c] ∧ p c}

/-- A pattern once or more often. -/
def oneOrMore (l : Language Char) : Language Char :=
  l * l∗

theorem inRanges_cons {r : Char × Char} {ranges : List (Char × Char)} {c : Char} :
    InRanges (r :: ranges) c ↔ (r.1 ≤ c ∧ c ≤ r.2) ∨ InRanges ranges c := by
  simp only [InRanges, List.exists_mem_cons_iff]

theorem not_inRanges_nil {c : Char} : ¬ InRanges [] c := by
  simp [InRanges]

theorem mem_oneChar_kstar {p : Char → Prop} {w : List Char} : w ∈ (oneChar p)∗ ↔ ∀ c ∈ w, p c := by
  rw [Language.mem_kstar]
  constructor
  · rintro ⟨pieces, rfl, hpieces⟩ c hc
    obtain ⟨piece, hpiece, hc⟩ := List.mem_flatten.mp hc
    obtain ⟨d, rfl, hd⟩ := hpieces piece hpiece
    rwa [List.mem_singleton.mp hc]
  · intro h
    refine ⟨w.map fun c => [c], (List.flatMap_singleton' w).symm, ?_⟩
    rintro piece hpiece
    obtain ⟨c, hc, rfl⟩ := List.mem_map.mp hpiece
    exact ⟨c, rfl, h c hc⟩

theorem mem_oneChar_mul {p : Char → Prop} {l : Language Char} {w : List Char} :
    w ∈ oneChar p * l ↔ ∃ c ds, w = c :: ds ∧ p c ∧ ds ∈ l := by
  rw [Language.mem_mul]
  constructor
  · rintro ⟨_, ⟨c, rfl, hc⟩, ds, hds, rfl⟩
    exact ⟨c, ds, rfl, hc, hds⟩
  · rintro ⟨c, ds, rfl, hc, hds⟩
    exact ⟨[c], ⟨c, rfl, hc⟩, ds, hds, rfl⟩

theorem mem_oneOrMore_oneChar {p : Char → Prop} {w : List Char} :
    w ∈ oneOrMore (oneChar p) ↔ ∃ c ds, w = c :: ds ∧ p c ∧ ∀ d ∈ ds, p d := by
  simp only [oneOrMore, mem_oneChar_mul, mem_oneChar_kstar]

theorem mem_singleton_mul {v w : List Char} {l : Language Char} :
    w ∈ ({v} : Language Char) * l ↔ ∃ ds ∈ l, w = v ++ ds := by
  rw [Language.mem_mul]
  constructor
  · rintro ⟨_, rfl, ds, hds, rfl⟩
    exact ⟨ds, hds, rfl⟩
  · rintro ⟨ds, hds, rfl⟩
    exact ⟨v, rfl, ds, hds, rfl⟩

/-! ## Rules -/

/-- The rules by which a text is cut into lexemes. -/
inductive LexRule where
  | blanks
  | continuation
  | comment
  | keyword (word : Keyword)
  | help
  | mark (sign : Mark)
  | tristate (value : Tristate)
  | decimal
  | hexadecimal
  | string
  /-- A quote whose literal does not end. -/
  | unterminated
  | ident
  deriving DecidableEq

/-- Two upper-case hexadecimal digits: `[0-9A-F][0-9A-F]`. -/
def hexPair : Language Char :=
  oneChar (InRanges [('0', '9'), ('A', 'F')]) * oneChar (InRanges [('0', '9'), ('A', 'F')])

/-- A code point group: `\["([0-9A-F][0-9A-F]){2,4}"\]`. -/
def codePointGroup : Language Char :=
  {['[', '"']} * ((hexPair ^ 2 + hexPair ^ 3 + hexPair ^ 4) * {['"', ']']})

/-- What may stand between the quotes of a literal: `""|\["([0-9A-F][0-9A-F]){2,4}"\]|[^\n"]`. -/
def literalPiece : Language Char :=
  {['"', '"']} + codePointGroup + oneChar (· ∉ ['\n', '"'])

namespace LexRule

/-- What a rule matches. -/
def language : LexRule → Language Char
  -- `[ \t\r\n\f]+`
  | blanks => oneOrMore (oneChar (· ∈ [' ', '\t', '\r', '\n', '\x0c']))
  -- `\\\r?\n`
  | continuation => {['\\']} * ((1 + {['\r']}) * {['\n']})
  -- `#[^\n]*`
  | comment => {['#']} * (oneChar (· ∉ ['\n']))∗
  -- the word itself; no word says that an `if` opens a block
  | keyword word => {w | word ∈ Keyword.words ∧ w = word.text.toList}
  | help => {"help".toList, "--help--".toList, "---help---".toList}
  | mark sign => {sign.text.toList}
  | tristate value => {value.text.toList}
  -- `-?[0-9]+`
  | decimal => (1 + {['-']}) * oneOrMore (oneChar (InRanges [('0', '9')]))
  -- `0x[0-9a-fA-F]+`
  | hexadecimal => {['0', 'x']} * oneOrMore (oneChar (InRanges [('0', '9'), ('a', 'f'), ('A', 'F')]))
  -- `"(""|\["([0-9A-F][0-9A-F]){2,4}"\]|[^\n"])*"`
  | string => {['"']} * (literalPiece∗ * {['"']})
  -- `"[^"\n]*`
  | unterminated => {['"']} * (oneChar (· ∉ ['"', '\n']))∗
  -- `[a-zA-Z][a-zA-Z0-9_]*`
  | ident => oneChar (InRanges [('a', 'z'), ('A', 'Z')]) *
      (oneChar (InRanges [('a', 'z'), ('A', 'Z'), ('0', '9'), ('_', '_')]))∗

/-- A rule has the longest match at the start of a text. Where others match the same, it is no symbol name and
the others are. -/
structure Wins (r : LexRule) (text w : List Char) : Prop where
  isPrefix : w <+: text
  matches' : w ∈ r.language
  longest : ∀ r' : LexRule, ∀ w' ∈ r'.language, w' <+: text → w'.length ≤ w.length
  first : ∀ r' : LexRule, w ∈ r'.language → r' = r ∨ r' = .ident

/-- No rule matches at the start of a text. -/
def NoneMatches (text : List Char) : Prop :=
  ∀ r : LexRule, ∀ w ∈ r.language, ¬ w <+: text

end LexRule

/-! ## What rules match -/

section Matches

open LexRule

variable {w : List Char}

theorem inRanges_digit {c : Char} : InRanges [('0', '9')] c ↔ c.isDigit = true := by
  rw [inRanges_cons, or_iff_left not_inRanges_nil]
  simp only [Char.isDigit, Bool.and_eq_true, decide_eq_true_eq]
  rfl

theorem inRanges_upperHex {c : Char} :
    InRanges [('0', '9'), ('A', 'F')] c ↔ Text.isUpperHexDigit c = true := by
  rw [inRanges_cons, inRanges_cons, or_iff_left not_inRanges_nil]
  simp only [Text.isUpperHexDigit, Char.isDigit, Bool.or_eq_true, Bool.and_eq_true, decide_eq_true_eq]
  rfl

theorem inRanges_hex {c : Char} :
    InRanges [('0', '9'), ('a', 'f'), ('A', 'F')] c ↔ Text.isHexDigit c = true := by
  rw [inRanges_cons, inRanges_cons, inRanges_cons, or_iff_left not_inRanges_nil]
  simp only [Text.isHexDigit, Char.isDigit, Bool.or_eq_true, Bool.and_eq_true, decide_eq_true_eq, or_assoc]
  rfl

theorem inRanges_alpha {c : Char} : InRanges [('a', 'z'), ('A', 'Z')] c ↔ c.isAlpha = true := by
  have hletter : c.isAlpha = (decide ('A' ≤ c ∧ c ≤ 'Z') || decide ('a' ≤ c) && decide (c ≤ 'z')) := rfl
  rw [inRanges_cons, inRanges_cons, or_iff_left not_inRanges_nil, hletter]
  simp only [Bool.or_eq_true, Bool.and_eq_true, decide_eq_true_eq]
  exact or_comm

theorem inRanges_wordChar {c : Char} :
    InRanges [('a', 'z'), ('A', 'Z'), ('0', '9'), ('_', '_')] c ↔ Lexeme.isWordChar c = true := by
  rw [inRanges_cons, inRanges_cons, inRanges_cons, inRanges_cons, or_iff_left not_inRanges_nil,
    Lexeme.isWordChar, Bool.or_eq_true, Char.isAlphanum, Bool.or_eq_true, ← inRanges_alpha, ← inRanges_digit,
    inRanges_cons, inRanges_cons, inRanges_cons, or_iff_left not_inRanges_nil, or_iff_left not_inRanges_nil,
    decide_eq_true_eq, or_assoc, or_assoc]
  have hunderscore : ('_' ≤ c ∧ c ≤ '_') ↔ c = '_' :=
    ⟨fun h => Char.le_antisymm h.2 h.1, fun h => ⟨h ▸ Char.le_refl c, h ▸ Char.le_refl c⟩⟩
  exact or_congr_right (or_congr_right (or_congr_right hunderscore))

theorem mem_blanks : w ∈ blanks.language ↔
    ∃ c ds, w = c :: ds ∧ Lexeme.isSpace c = true ∧ ∀ d ∈ ds, Lexeme.isSpace d = true := by
  have hspace (c : Char) : c ∈ [' ', '\t', '\r', '\n', '\x0c'] ↔ Lexeme.isSpace c = true := by
    simp [Lexeme.isSpace, or_assoc]
  simp only [language, mem_oneOrMore_oneChar, hspace]

theorem mem_continuation : w ∈ continuation.language ↔ w = ['\\', '\n'] ∨ w = ['\\', '\r', '\n'] := by
  simp only [language, mem_singleton_mul, add_mul, one_mul, Language.mem_add]
  constructor
  · rintro ⟨_, rfl | ⟨_, rfl, rfl⟩, rfl⟩
    · exact .inl rfl
    · exact .inr rfl
  · rintro (rfl | rfl)
    · exact ⟨_, .inl rfl, rfl⟩
    · exact ⟨_, .inr ⟨_, rfl, rfl⟩, rfl⟩

theorem mem_comment : w ∈ comment.language ↔ ∃ ds, w = '#' :: ds ∧ ∀ d ∈ ds, d ≠ '\n' := by
  simp only [language, mem_singleton_mul, mem_oneChar_kstar, List.mem_singleton, List.singleton_append]
  exact exists_congr fun _ => and_comm

theorem mem_unterminated : w ∈ unterminated.language ↔
    ∃ ds, w = '"' :: ds ∧ ∀ d ∈ ds, d ≠ '"' ∧ d ≠ '\n' := by
  simp only [language, mem_singleton_mul, mem_oneChar_kstar, List.mem_cons, List.not_mem_nil, or_false, not_or,
    List.singleton_append]
  exact exists_congr fun _ => and_comm

theorem mem_decimal : w ∈ decimal.language ↔
    ∃ d ds, (w = d :: ds ∨ w = '-' :: d :: ds) ∧ d.isDigit = true ∧ ∀ e ∈ ds, e.isDigit = true := by
  simp only [language, add_mul, one_mul, Language.mem_add, mem_singleton_mul, mem_oneOrMore_oneChar,
    inRanges_digit]
  constructor
  · rintro (⟨d, ds, rfl, hd, hds⟩ | ⟨_, ⟨d, ds, rfl, hd, hds⟩, rfl⟩)
    · exact ⟨d, ds, .inl rfl, hd, hds⟩
    · exact ⟨d, ds, .inr rfl, hd, hds⟩
  · rintro ⟨d, ds, rfl | rfl, hd, hds⟩
    · exact .inl ⟨d, ds, rfl, hd, hds⟩
    · exact .inr ⟨_, ⟨d, ds, rfl, hd, hds⟩, rfl⟩

theorem mem_hexadecimal : w ∈ hexadecimal.language ↔ ∃ d ds, w = '0' :: 'x' :: d :: ds ∧
    Text.isHexDigit d = true ∧ ∀ e ∈ ds, Text.isHexDigit e = true := by
  simp only [language, mem_singleton_mul, mem_oneOrMore_oneChar, inRanges_hex]
  constructor
  · rintro ⟨_, ⟨d, ds, rfl, hd, hds⟩, rfl⟩
    exact ⟨d, ds, rfl, hd, hds⟩
  · rintro ⟨d, ds, rfl, hd, hds⟩
    exact ⟨_, ⟨d, ds, rfl, hd, hds⟩, rfl⟩

theorem mem_ident : w ∈ ident.language ↔
    ∃ c ds, w = c :: ds ∧ c.isAlpha = true ∧ ∀ d ∈ ds, Lexeme.isWordChar d = true := by
  simp only [language, mem_oneChar_mul, mem_oneChar_kstar, inRanges_alpha, inRanges_wordChar]

end Matches

/-! ## String literals from left to right -/

theorem mem_hexPair_pow {n : Nat} {w : List Char} : w ∈ hexPair ^ n ↔
    w.length = 2 * n ∧ ∀ c ∈ w, Text.isUpperHexDigit c = true := by
  induction n generalizing w with
  | zero =>
    rw [pow_zero, Language.mem_one]
    refine ⟨?_, fun h => List.eq_nil_of_length_eq_zero h.1⟩
    rintro rfl
    exact ⟨rfl, List.forall_mem_nil _⟩
  | succ n ih =>
    simp only [pow_succ', hexPair, mul_assoc, mem_oneChar_mul, inRanges_upperHex]
    constructor
    · rintro ⟨c, _, rfl, hc, d, ds, rfl, hd, hds⟩
      obtain ⟨hlen, hall⟩ := ih.mp hds
      exact ⟨by simp [hlen]; omega, List.forall_mem_cons.mpr ⟨hc, List.forall_mem_cons.mpr ⟨hd, hall⟩⟩⟩
    · rintro ⟨hlen, hall⟩
      match w, hlen with
      | c :: d :: ds, hlen =>
        obtain ⟨hc, hd, hds⟩ := List.forall_mem_cons.mp hall |>.imp_right List.forall_mem_cons.mp
        exact ⟨c, d :: ds, rfl, hc, d, ds, rfl, hd, ih.mpr ⟨by simp at hlen; omega, hds⟩⟩

theorem mem_codePointGroup {w : List Char} : w ∈ codePointGroup ↔
    ∃ digits, (digits.length = 4 ∨ digits.length = 6 ∨ digits.length = 8) ∧
      (∀ d ∈ digits, Text.isUpperHexDigit d = true) ∧ w = Literal.groupText digits := by
  rw [codePointGroup, mem_singleton_mul]
  simp only [Language.mem_mul, Language.mem_add, mem_hexPair_pow]
  constructor
  · rintro ⟨_, ⟨digits, hdigits, _, rfl, rfl⟩, rfl⟩
    refine ⟨digits, ?_, ?_, rfl⟩
    · rcases hdigits with (h | h) | h <;> simp [h.1]
    · rcases hdigits with (h | h) | h <;> exact h.2
  · rintro ⟨digits, hlen, hall, rfl⟩
    refine ⟨_, ⟨digits, ?_, _, rfl, rfl⟩, rfl⟩
    rcases hlen with h | h | h
    · exact .inl (.inl ⟨h, hall⟩)
    · exact .inl (.inr ⟨h, hall⟩)
    · exact .inr ⟨h, hall⟩

namespace Literal

/-- What may follow the opening quote of a literal up to its closing quote. -/
inductive Closes : List Char → Prop
  | close : Closes ['"']
  | quote {w : List Char} (more : Closes w) : Closes ('"' :: '"' :: w)
  | group {digits w : List Char} (length : digits.length = 4 ∨ digits.length = 6 ∨ digits.length = 8)
      (hex : ∀ d ∈ digits, Text.isUpperHexDigit d = true) (more : Closes w) : Closes (groupText digits ++ w)
  | char {c : Char} {w : List Char} (quote : c ≠ '"') (newline : c ≠ '\n') (more : Closes w) : Closes (c :: w)

theorem Closes.append_piece {piece w : List Char} (hpiece : piece ∈ literalPiece) (h : Closes w) :
    Closes (piece ++ w) := by
  simp only [literalPiece, Language.mem_add, mem_codePointGroup] at hpiece
  rcases hpiece with (rfl | ⟨digits, hlen, hhex, rfl⟩) | ⟨c, rfl, hc⟩
  · exact h.quote
  · exact h.group hlen hhex
  · simp only [List.mem_cons, List.not_mem_nil, or_false, not_or] at hc
    exact h.char hc.2 hc.1

end Literal

theorem mem_string {w : List Char} : w ∈ LexRule.string.language ↔
    ∃ body, w = '"' :: body ∧ Literal.Closes body := by
  rw [LexRule.language, mem_singleton_mul]
  simp only [Language.mem_mul, List.singleton_append]
  constructor
  · rintro ⟨_, ⟨inner, hinner, _, rfl, rfl⟩, rfl⟩
    refine ⟨_, rfl, ?_⟩
    obtain ⟨pieces, rfl, hpieces⟩ := Language.mem_kstar.mp hinner
    induction pieces with
    | nil => exact .close
    | cons piece pieces ih =>
      obtain ⟨hpiece, hpieces⟩ := List.forall_mem_cons.mp hpieces
      rw [List.flatten_cons, List.append_assoc]
      exact (ih hpieces (Language.join_mem_kstar hpieces)).append_piece hpiece
  · rintro ⟨body, rfl, hbody⟩
    have hcons {piece inner : List Char} (hpiece : piece ∈ literalPiece) (hinner : inner ∈ literalPiece∗) :
        piece ++ inner ∈ literalPiece∗ := by
      rw [← Language.one_add_self_mul_kstar_eq_kstar]
      exact .inr (Language.append_mem_mul hpiece hinner)
    refine ⟨body, ?_, rfl⟩
    induction hbody with
    | close => exact ⟨[], Language.nil_mem_kstar _, _, rfl, rfl⟩
    | quote _ ih =>
      obtain ⟨inner, hinner, _, rfl, rfl⟩ := ih
      exact ⟨_, hcons (.inl (.inl rfl)) hinner, _, rfl, rfl⟩
    | @group digits _ hlen hhex _ ih =>
      obtain ⟨inner, hinner, _, rfl, rfl⟩ := ih
      refine ⟨_, hcons (.inl (.inr (mem_codePointGroup.mpr ⟨digits, hlen, hhex, rfl⟩))) hinner, _, rfl, ?_⟩
      exact List.append_assoc _ _ _
    | @char c _ hquote hnewline _ ih =>
      obtain ⟨inner, hinner, _, rfl, rfl⟩ := ih
      have hc : c ∉ ['\n', '"'] := by simp [hquote, hnewline]
      exact ⟨_, hcons (.inr ⟨c, rfl, hc⟩) hinner, _, rfl, rfl⟩

/-! ## First characters -/

namespace LexRule

/-- Which characters the matches of a rule may start with. -/
def Starts : LexRule → Char → Prop
  | blanks, c => Lexeme.isSpace c = true
  | continuation, c => c = '\\'
  | comment, c => c = '#'
  | keyword _, c | tristate _, c | ident, c => c.isAlpha = true
  | help, c => c = 'h' ∨ c = '-'
  | mark _, c => c ∈ ['=', '!', '<', '>', '&', '|', '(', ')']
  | decimal, c => c.isDigit = true ∨ c = '-'
  | hexadecimal, c => c = '0'
  | string, c | unterminated, c => c = '"'

theorem starts_keyword (k : Keyword) : ∃ c ds, k.text.toList = c :: ds ∧ c.isAlpha = true := by
  cases k <;> exact ⟨_, _, rfl, by decide⟩

theorem starts_mark (m : Mark) :
    ∃ c ds, m.text.toList = c :: ds ∧ c ∈ ['=', '!', '<', '>', '&', '|', '(', ')'] := by
  cases m <;> exact ⟨_, _, rfl, by decide⟩

theorem starts_tristate (t : Tristate) : ∃ c ds, t.text.toList = c :: ds ∧ c.isAlpha = true := by
  cases t <;> exact ⟨_, _, rfl, by decide⟩

/-- No rule matches nothing, and the first character of a match tells much about its rule. -/
theorem starts_of_mem {r : LexRule} {w : List Char} (h : w ∈ r.language) :
    ∃ c ds, w = c :: ds ∧ r.Starts c := by
  cases r with
  | blanks =>
    obtain ⟨c, ds, rfl, hc, -⟩ := mem_blanks.mp h
    exact ⟨c, ds, rfl, hc⟩
  | continuation => rcases mem_continuation.mp h with rfl | rfl <;> exact ⟨_, _, rfl, rfl⟩
  | comment =>
    obtain ⟨ds, rfl, -⟩ := mem_comment.mp h
    exact ⟨_, _, rfl, rfl⟩
  | keyword k =>
    obtain ⟨-, rfl⟩ := h
    exact starts_keyword k
  | help =>
    rcases h with rfl | rfl | rfl
    · exact ⟨_, _, rfl, .inl rfl⟩
    · exact ⟨_, _, rfl, .inr rfl⟩
    · exact ⟨_, _, rfl, .inr rfl⟩
  | mark m =>
    obtain rfl := h
    exact starts_mark m
  | tristate t =>
    obtain rfl := h
    exact starts_tristate t
  | decimal =>
    obtain ⟨d, ds, rfl | rfl, hd, -⟩ := mem_decimal.mp h
    · exact ⟨_, _, rfl, .inl hd⟩
    · exact ⟨_, _, rfl, .inr rfl⟩
  | hexadecimal =>
    obtain ⟨d, ds, rfl, -⟩ := mem_hexadecimal.mp h
    exact ⟨_, _, rfl, rfl⟩
  | string =>
    obtain ⟨body, rfl, -⟩ := mem_string.mp h
    exact ⟨_, _, rfl, rfl⟩
  | unterminated =>
    obtain ⟨ds, rfl, -⟩ := mem_unterminated.mp h
    exact ⟨_, _, rfl, rfl⟩
  | ident =>
    obtain ⟨c, ds, rfl, hc, -⟩ := mem_ident.mp h
    exact ⟨c, ds, rfl, hc⟩

end LexRule

end KconfigLang
