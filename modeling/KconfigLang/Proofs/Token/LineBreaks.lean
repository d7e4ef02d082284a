import KconfigLang.Proofs.Text.LineBreaks
import KconfigLang.Proofs.Token.HelpExtent
import KconfigLang.Proofs.Token.MaximalMunch
import Mathlib.Data.List.Find

/-!
# Line breaks do not matter to tokens

A text gives the same tokens and failures whether its lines end in newlines alone or in carriage returns and
newlines.

- `HelpBlock.read_sameLines`: the body of a help block, and where it ends.
- `Literal.literalLength?_sameLines`: the length of a string literal.
- `Lexeme.read_same`: the lexeme at the start of a text, and what is left behind it.
- `Cursor.Same.items`: the tokens and failures of the whole text, with the characters that they start and end at.
-/

namespace KconfigLang

/-! ## Help blocks -/

namespace HelpBlock

/-- A line without the carriage returns at its end. -/
def withoutReturns (line : List Char) : List Char :=
  line.rdropWhile (· = '\r')

theorem withoutReturns_cons {c : Char} (h : c ≠ '\r') (line : List Char) :
    withoutReturns (c :: line) = c :: withoutReturns line := by
  have hc : [c].dropWhile (· = '\r') = [c] := List.dropWhile_cons_of_neg (by simpa using h)
  simp only [withoutReturns, List.rdropWhile, List.reverse_cons, List.dropWhile_append]
  split
  · rename_i hempty
    rw [hc, List.isEmpty_iff.mp hempty]
    rfl
  · rw [List.reverse_append]
    rfl

/-- A line ends in carriage returns and has none before. -/
theorem exists_returns (line : List Char) :
    ∃ rs, line = withoutReturns line ++ rs ∧ ∀ c ∈ rs, c = '\r' := by
  refine ⟨line.rtakeWhile (· = '\r'), List.rdropWhile_append_rtakeWhile.symm, fun c hc => ?_⟩
  simpa using List.mem_rtakeWhile_imp hc

section Returns

variable {rs : List Char}

theorem isBlank_append (h : ∀ c ∈ rs, c = '\r') (line : List Char) :
    Text.isBlank (line ++ rs) = Text.isBlank line := by
  have hrs : rs.all Text.isWhiteSpace = true := by
    refine List.all_eq_true.mpr fun c hc => ?_
    rw [h c hc]
    decide
  rw [Text.isBlank, List.all_append, hrs, Bool.and_true]
  rfl

theorem takeWhile_isIndent_returns (h : ∀ c ∈ rs, c = '\r') : rs.takeWhile isIndent = [] := by
  cases rs with
  | nil => rfl
  | cons c rs =>
    obtain rfl := h c List.mem_cons_self
    exact List.takeWhile_cons_of_neg (by decide)

theorem indentation_append (h : ∀ c ∈ rs, c = '\r') (line : List Char) :
    indentation (line ++ rs) = indentation line := by
  unfold indentation
  congr 1
  rw [List.takeWhile_append, takeWhile_isIndent_returns h, List.append_nil]
  split
  · rename_i hlength
    exact ((List.takeWhile_prefix isIndent).eq_of_length hlength).symm
  · rfl

theorem dropIndent_append (h : ∀ c ∈ rs, c = '\r') (base width : Nat) (line : List Char) :
    dropIndent base width (line ++ rs) = dropIndent base width line ++ rs := by
  induction line generalizing width with
  | nil =>
    cases rs with
    | nil => rfl
    | cons c rs =>
      obtain rfl := h c List.mem_cons_self
      simp [dropIndent, isIndent]
  | cons c line ih =>
    rw [List.cons_append, dropIndent, dropIndent, ih]
    split <;> rfl

theorem trimEnd_append (h : ∀ c ∈ rs, c = '\r') (line : List Char) :
    Text.trimEnd (line ++ rs) = Text.trimEnd line := by
  have hrs : ∀ c ∈ rs.reverse, Text.isWhiteSpace c = true := by
    intro c hc
    rw [h c (List.mem_reverse.mp hc)]
    decide
  rw [Text.trimEnd, List.reverse_append, List.dropWhile_append_of_pos hrs]
  rfl

theorem dedent_append (h : ∀ c ∈ rs, c = '\r') (base : Nat) (line : List Char) :
    dedent base (line ++ rs) = dedent base line := by
  rw [dedent, dedent, isBlank_append h, dropIndent_append h, trimEnd_append h]

end Returns

@[simp] theorem isBlank_withoutReturns (line : List Char) :
    Text.isBlank (withoutReturns line) = Text.isBlank line := by
  obtain ⟨rs, hline, hrs⟩ := exists_returns line
  conv => rhs; rw [hline, isBlank_append hrs]

@[simp] theorem indentation_withoutReturns (line : List Char) :
    indentation (withoutReturns line) = indentation line := by
  obtain ⟨rs, hline, hrs⟩ := exists_returns line
  conv => rhs; rw [hline, indentation_append hrs]

@[simp] theorem dedent_withoutReturns (base : Nat) (line : List Char) :
    dedent base (withoutReturns line) = dedent base line := by
  obtain ⟨rs, hline, hrs⟩ := exists_returns line
  conv => rhs; rw [hline, dedent_append hrs]

theorem bodyLines_withoutReturns (base : Nat) (lines : List (List Char)) :
    bodyLines base (lines.map withoutReturns) = (bodyLines base lines).map withoutReturns := by
  unfold bodyLines dropBlankEnd
  rw [List.takeWhile_map, ← List.map_reverse, List.dropWhile_map, ← List.map_reverse]
  simp only [Function.comp_def, isBlank_withoutReturns, indentation_withoutReturns]

theorem find?_withoutReturns (lines : List (List Char)) :
    (lines.map withoutReturns).find? (!Text.isBlank ·) =
      (lines.find? (!Text.isBlank ·)).map withoutReturns := by
  rw [List.find?_map]
  simp only [Function.comp_def, isBlank_withoutReturns]

theorem linesOf_withoutReturns (lines : List (List Char)) :
    linesOf (lines.map withoutReturns) = (linesOf lines).map withoutReturns := by
  unfold linesOf
  rw [find?_withoutReturns]
  cases lines.find? (!Text.isBlank ·) with
  | none => rfl
  | some first =>
    simp only [Option.map_some, indentation_withoutReturns, bodyLines_withoutReturns]
    split <;> rfl

theorem textOf_withoutReturns (lines : List (List Char)) :
    textOf (lines.map withoutReturns) = textOf lines := by
  unfold textOf
  rw [find?_withoutReturns]
  cases lines.find? (!Text.isBlank ·) with
  | none => rfl
  | some first =>
    simp only [Option.map_some, indentation_withoutReturns, bodyLines_withoutReturns, bodyText,
      List.dropWhile_map, List.map_map, Function.comp_def, isBlank_withoutReturns, dedent_withoutReturns]

/-- Cut at newlines, the two texts have the same lines but for the carriage returns at their ends. -/
theorem splitOn_sameLines {cs ds : List Char} (h : Text.SameLines cs ds) :
    Text.splitOn '\n' cs = (Text.splitOn '\n' ds).map withoutReturns := by
  show List.splitOn '\n' cs = (List.splitOn '\n' ds).map withoutReturns
  induction h with
  | nil => rfl
  | @char c cs ds hreturn hnewline _ ih =>
    have hc : ¬ (c == '\n') = true := by simpa using hnewline
    obtain ⟨line, lines, hlines⟩ := List.exists_cons_of_ne_nil (List.splitOn_ne_nil '\n' ds)
    rw [List.splitOn_cons_eq_if_modifyHead, List.splitOn_cons_eq_if_modifyHead, if_neg hc, if_neg hc, ih, hlines]
    simp only [List.map_cons, List.modifyHead_cons, withoutReturns_cons hreturn]
  | @newline cs ds _ ih =>
    rw [List.splitOn_cons_eq_if_modifyHead, List.splitOn_cons_eq_if_modifyHead, if_pos (by decide),
      if_pos (by decide), ih]
    rfl
  | @both cs ds _ ih =>
    rw [List.splitOn_cons_eq_if_modifyHead, List.splitOn_cons_eq_if_modifyHead '\r',
      List.splitOn_cons_eq_if_modifyHead '\n', if_pos (by decide), if_neg (by decide), if_pos (by decide), ih]
    rfl

/-- A body reads the same in both texts, and ends at the end of the same line. -/
theorem read_sameLines {rest rest' : List Char} (h : Text.SameLines rest rest') :
    (read rest').body = (read rest).body ∧
      Text.SameLines (rest.drop (read rest).extent) (rest'.drop (read rest').extent) := by
  have hmem : '\n' ∈ rest ↔ '\n' ∈ rest' := by
    rw [← h.filter]
    simp
  by_cases hnewline : '\n' ∈ rest
  · obtain ⟨keywordLine, cs, rfl, hline⟩ := List.eq_append_cons_of_mem hnewline
    obtain ⟨keywordLine', ds, rfl, hline'⟩ := List.eq_append_cons_of_mem (hmem.mp hnewline)
    -- The lines behind that of the keyword are the same but for carriage returns.
    have hlines : Text.SameLines cs ds := by
      cases h.behind (atLineEnd_newline cs) (atLineEnd_newline ds)
        (by rw [List.count_eq_zero.mpr hline, List.count_eq_zero.mpr hline']) with
      | char _ hne => exact absurd rfl hne
      | newline more => exact more
    have hsplit := splitOn_sameLines hlines
    refine ⟨?_, ?_⟩
    · rw [read_behind hline, read_behind hline', hsplit]
      exact (textOf_withoutReturns _).symm
    · obtain ⟨taken, more, htext, hend, hcount, hextent⟩ := exists_read_behind hline cs
      obtain ⟨taken', more', htext', hend', hcount', hextent'⟩ := exists_read_behind hline' ds
      rw [hextent, hextent', htext, htext', List.drop_left, List.drop_left]
      rw [htext, htext'] at h
      refine h.behind hend hend' ?_
      rw [hcount, hcount', hsplit, linesOf_withoutReturns, List.length_map]
  · rw [read_of_not_mem hnewline, read_of_not_mem (hmem.not.mp hnewline), List.drop_length, List.drop_length]
    exact ⟨rfl, .nil⟩

end HelpBlock

/-! ## Literals -/

namespace Literal

variable {cs ds : List Char}

theorem not_mem_groupText {digits : List Char} (h : ∀ d ∈ digits, Text.isUpperHexDigit d = true) :
    '\r' ∉ groupText digits ∧ '\n' ∉ groupText digits := by
  simp only [groupText, List.mem_append, List.mem_cons, List.not_mem_nil, or_false, not_or]
  refine ⟨⟨by decide, by decide, fun hmem => ?_, by decide⟩, by decide, by decide, fun hmem => ?_, by decide⟩
  · exact absurd (h _ hmem) (by decide)
  · exact absurd (h _ hmem) (by decide)

theorem group?_sameLines (h : Text.SameLines cs ds) : group? ds = group? cs := by
  have hiff (digits : List Char) : group? ds = some digits ↔ group? cs = some digits := by
    rw [group?_eq_some_iff, group?_eq_some_iff]
    refine and_congr_right fun _ => and_congr_right fun hdigits => ?_
    exact (h.prefix_iff (not_mem_groupText hdigits).1 (not_mem_groupText hdigits).2).symm
  exact Option.ext hiff

/-- What is left behind a group. -/
theorem behind_group (h : Text.SameLines cs ds) {digits : List Char} (hgroup : group? cs = some digits) :
    ∃ more, ds = groupText digits ++ more ∧ Text.SameLines (cs.drop (groupLength digits)) more := by
  obtain ⟨-, hdigits, hprefix⟩ := group?_eq_some_iff.mp hgroup
  obtain ⟨hreturn, hnewline⟩ := not_mem_groupText hdigits
  obtain ⟨more, rfl⟩ := (h.prefix_iff hreturn hnewline).mp hprefix
  refine ⟨more, rfl, ?_⟩
  rw [List.prefix_iff_eq_take.mp hprefix, length_groupText] at hnewline
  have hrest := h.drop hnewline
  rwa [List.drop_left' (length_groupText digits)] at hrest

/-- A literal ends at the same character. -/
theorem literalLength?_sameLines (h : Text.SameLines cs ds) : literalLength? ds = literalLength? cs := by
  fun_induction literalLength? cs generalizing ds with
  | case1 =>
    cases h
    rw [literalLength?]
  -- two quotes
  | case2 cs m hm ih =>
    cases h with
    | char _ _ more => cases more with
      | char _ _ more => rw [literalLength?, ih more, hm]
  | case3 cs hm ih =>
    cases h with
    | char _ _ more => cases more with
      | char _ _ more => rw [literalLength?, ih more, hm]
  -- a quote that no other one follows
  | case4 cs hcs =>
    cases h with
    | char _ _ more =>
      refine literalLength?_of_closed fun es heq => ?_
      subst heq
      cases more with
      | char => exact hcs _ rfl
  -- the end of the line
  | case5 cs _ _ =>
    have hnewline (es : List Char) : literalLength? ('\n' :: es) = none := by
      rw [literalLength?] <;> simp
    cases h with
    | char _ hne => exact absurd rfl hne
    | newline => exact hnewline _
    | both => rw [literalLength?_of_group_eq_none (by decide) (by decide) rfl, hnewline, Option.map_none]
  -- a group
  | case6 c cs _ _ _ digits hgroup m hm ih =>
    obtain ⟨more, hds, hmore⟩ := behind_group h hgroup
    rw [hds, literalLength?_groupText (hds ▸ (group?_sameLines h).trans hgroup), ih hmore, hm]
  | case7 c cs _ _ _ digits hgroup hm ih =>
    obtain ⟨more, hds, hmore⟩ := behind_group h hgroup
    rw [hds, literalLength?_groupText (hds ▸ (group?_sameLines h).trans hgroup), ih hmore, hm]
  | case8 c cs _ hquote hline hgroup ih =>
    have hgroup' := group?_sameLines h
    cases h with
    | char _ _ more =>
      rw [literalLength?_of_group_eq_none hquote hline (hgroup'.trans hgroup), ih more]
    | newline => exact absurd rfl hline
    | both => exact absurd rfl hline

/-- A literal stands within a line. -/
theorem Closes.not_mem_newline {w : List Char} (h : Closes w) : '\n' ∉ w := by
  induction h with
  | close => decide
  | quote _ ih => simpa using ih
  | group _ hhex _ ih =>
    rw [List.mem_append, not_or]
    exact ⟨(not_mem_groupText hhex).2, ih⟩
  | char _ hnewline _ ih => exact List.not_mem_cons_of_ne_of_not_mem (Ne.symm hnewline) ih

end Literal

/-! ## Lexemes -/

namespace Lexeme

/-- Two lexemes of the same kind with the same lines behind them, where `cs` and `ds` stand behind their first
characters. -/
structure Same (cs ds : List Char) (l l' : Lexeme) : Prop where
  kind : l'.kind = l.kind
  rest : Text.SameLines (cs.drop l.extra) (ds.drop l'.extra)

section Readers

variable {cs ds : List Char}

theorem same_help {n : Nat} (h : Text.SameLines (cs.drop n) (ds.drop n)) :
    Same cs ds (help n cs) (help n ds) := by
  obtain ⟨hbody, hrest⟩ := HelpBlock.read_sameLines h
  refine ⟨?_, ?_⟩
  · simp only [help, hbody]
  · simpa only [help, List.drop_drop] using hrest

theorem same_backslash (h : Text.SameLines cs ds) : Same cs ds (backslash cs) (backslash ds) := by
  cases h with
  | nil => exact ⟨rfl, .nil⟩
  | newline more => exact ⟨rfl, more⟩
  | both more => exact ⟨rfl, more⟩
  | @char c cs ds hreturn hnewline more =>
    have hfail (es : List Char) : backslash (c :: es) = ⟨.failure .unexpectedCharacter, 0⟩ := by
      unfold backslash
      split <;> simp_all
    rw [hfail, hfail]
    exact ⟨rfl, .char hreturn hnewline more⟩

/-- Lexemes that go on with certain characters of the line. -/
theorem sameLines_takeWhile {p : Char → Bool} (h : Text.SameLines cs ds) (hreturn : p '\r' = false)
    (hnewline : p '\n' = false) :
    Text.SameLines (cs.drop (cs.takeWhile p).length) (ds.drop (cs.takeWhile p).length) := by
  rw [← h.takeWhile_eq hreturn hnewline, drop_length_takeWhile, h.takeWhile_eq hreturn hnewline,
    drop_length_takeWhile]
  exact h.dropWhile fun hp => absurd (hnewline.symm.trans hp) Bool.false_ne_true

theorem same_word (c : Char) (h : Text.SameLines cs ds) : Same cs ds (word c cs) (word c ds) := by
  have hrest := sameLines_takeWhile (p := isWordChar) h (by decide) (by decide)
  unfold word
  simp only [h.takeWhile_eq (p := isWordChar) (by decide) (by decide)]
  split
  · exact same_help hrest
  · exact ⟨rfl, hrest⟩

theorem same_decimal {n : Nat} (h : Text.SameLines (cs.drop n) (ds.drop n)) (value : Int) :
    Same cs ds (decimal value n) (decimal value n) :=
  ⟨rfl, by simpa only [decimal_extra] using h⟩

theorem same_number (c : Char) (h : Text.SameLines cs ds) : Same cs ds (number c cs) (number c ds) := by
  by_cases hhex : ∃ es, c :: cs = '0' :: 'x' :: es ∧ es.takeWhile Text.isHexDigit ≠ []
  · obtain ⟨es, heq, hes⟩ := hhex
    obtain ⟨rfl, rfl⟩ := List.cons.inj heq
    cases h with
    | @char _ _ ds _ _ more =>
      have htake := more.takeWhile_eq (p := Text.isHexDigit) (by decide) (by decide)
      have hrest := sameLines_takeWhile (p := Text.isHexDigit) more (by decide) (by decide)
      rw [number_hex hes, number_hex (by rwa [htake]), htake]
      refine ⟨rfl, ?_⟩
      rw [hexadecimal_extra]
      exact hrest
  · have hleft : ∀ es, c :: cs = '0' :: 'x' :: es → es.takeWhile Text.isHexDigit = [] := by
      intro es heq
      by_contra hne
      exact hhex ⟨es, heq, hne⟩
    have hright : ∀ es, c :: ds = '0' :: 'x' :: es → es.takeWhile Text.isHexDigit = [] := by
      intro es heq
      obtain ⟨rfl, rfl⟩ := List.cons.inj heq
      cases h with
      | char _ _ more =>
        rw [more.takeWhile_eq (by decide) (by decide)]
        exact hleft _ rfl
    rw [number_of_no_hexDigits hleft, number_of_no_hexDigits hright, h.takeWhile_eq (by decide) (by decide)]
    exact same_decimal (sameLines_takeWhile h (by decide) (by decide)) _

theorem commonLead_sameLines (h : Text.SameLines cs ds) {w : List Char} (hreturn : '\r' ∉ w) (hnewline : '\n' ∉ w) :
    Text.commonLead w ds = Text.commonLead w cs := by
  induction w generalizing cs ds with
  | nil => rw [Text.commonLead, Text.commonLead] <;> simp
  | cons d w ih =>
    rw [List.mem_cons, not_or] at hreturn hnewline
    cases h with
    | nil => rfl
    | char _ _ more => rw [Text.commonLead, Text.commonLead, ih more hreturn.2 hnewline.2]
    | newline => rw [Text.commonLead, Text.commonLead, if_neg (Ne.symm hnewline.1), if_neg (Ne.symm hnewline.1)]
    | both => rw [Text.commonLead, Text.commonLead, if_neg (Ne.symm hnewline.1), if_neg (Ne.symm hreturn.1)]

theorem not_mem_take_commonLead {c : Char} {w : List Char} (h : c ∉ w) (cs : List Char) :
    c ∉ cs.take (Text.commonLead w cs) := by
  induction w generalizing cs with
  | nil => simp [Text.commonLead]
  | cons d w ih =>
    rw [List.mem_cons, not_or] at h
    cases cs with
    | nil => simp
    | cons e cs =>
      rw [Text.commonLead]
      split
      · rename_i heq
        rw [List.take_succ_cons, ← heq]
        exact List.not_mem_cons_of_ne_of_not_mem h.1 (ih h.2 cs)
      · simp

/-- The keywords with dashes have no line break. -/
theorem not_mem_dashedHelps : ∀ w ∈ dashedHelps, '\r' ∉ w ∧ '\n' ∉ w := by
  decide

/-- A keyword with dashes stands on one line. -/
theorem not_mem_take_dashedHelp {keyword : List Char}
    (hkeyword : dashedHelps.find? (·.isPrefixOf cs) = some keyword) : '\n' ∉ cs.take keyword.length := by
  have hfound := List.find?_some hkeyword
  rw [← List.prefix_iff_eq_take.mp (List.isPrefixOf_iff_prefix.mp hfound)]
  exact (not_mem_dashedHelps keyword (List.mem_of_find?_eq_some hkeyword)).2

theorem same_dash (h : Text.SameLines cs ds) : Same cs ds (dash cs) (dash ds) := by
  have hfind : dashedHelps.find? (·.isPrefixOf ds) = dashedHelps.find? (·.isPrefixOf cs) := by
    refine List.find?_congr fun w hw => ?_
    obtain ⟨hreturn, hnewline⟩ := not_mem_dashedHelps w hw
    rw [Bool.eq_iff_iff, List.isPrefixOf_iff_prefix, List.isPrefixOf_iff_prefix]
    exact (h.prefix_iff hreturn hnewline).symm
  have hlead : dashedHelps.map (Text.commonLead · ds) = dashedHelps.map (Text.commonLead · cs) :=
    List.map_congr_left fun w hw =>
      commonLead_sameLines h (not_mem_dashedHelps w hw).1 (not_mem_dashedHelps w hw).2
  unfold dash
  simp only [h.takeWhile_eq (p := Char.isDigit) (by decide) (by decide), hfind, hlead]
  split
  · exact same_decimal (sameLines_takeWhile h (by decide) (by decide)) _
  · split
    · rename_i keyword hkeyword
      exact same_help (h.drop (not_mem_take_dashedHelp hkeyword))
    · refine ⟨rfl, h.drop ?_⟩
      refine List.foldlRecOn _ max (motive := fun n => '\n' ∉ cs.take n) List.not_mem_nil fun n hn m hm => ?_
      obtain ⟨w, hw, rfl⟩ := List.mem_map.mp hm
      rcases Nat.le_total n (Text.commonLead w cs) with hle | hle
      · rw [Nat.max_eq_right hle]
        exact not_mem_take_commonLead (not_mem_dashedHelps w hw).2 cs
      · rwa [Nat.max_eq_left hle]

theorem same_string (h : Text.SameLines cs ds) : Same cs ds (string cs) (string ds) := by
  unfold string
  rw [Literal.literalLength?_sameLines h]
  cases hlength : Literal.literalLength? cs with
  | none =>
    refine ⟨rfl, ?_⟩
    simp only [drop_length_takeWhile]
    exact h.dropWhile fun hnewline => absurd hnewline (by decide)
  | some n =>
    have hline := (Literal.closes_of_literalLength? hlength).not_mem_newline
    simp only [h.take_eq hline]
    split
    · exact ⟨rfl, h.drop hline⟩
    · exact ⟨rfl, h.drop hline⟩

/-- One character behind its first decides which mark is read. -/
theorem mark_cons (c d : Char) (cs : List Char) : mark c (d :: cs) = mark c [d] := by
  unfold mark
  split <;> first | rfl | (split <;> simp_all)

theorem mark_break (c : Char) {d : Char} (h : d = '\n' ∨ d = '\r') : mark c [d] = mark c [] := by
  unfold mark
  rcases h with rfl | rfl <;> split <;> simp_all

theorem not_mem_take_mark (c : Char) (cs : List Char) : '\n' ∉ cs.take (mark c cs).extra := by
  unfold mark
  split <;> simp

theorem same_mark (c : Char) (h : Text.SameLines cs ds) : Same cs ds (mark c cs) (mark c ds) := by
  have hmark : mark c ds = mark c cs := by
    cases h with
    | nil => rfl
    | char => exact (mark_cons c _ _).trans (mark_cons c _ _).symm
    | newline => exact (mark_cons c _ _).trans (mark_cons c _ _).symm
    | both => rw [mark_cons, mark_break c (.inr rfl), mark_cons, mark_break c (.inl rfl)]
  rw [hmark]
  exact ⟨rfl, h.drop (not_mem_take_mark c cs)⟩

theorem same_space (h : Text.SameLines cs ds) :
    Same cs ds ⟨.gap, (cs.takeWhile isSpace).length⟩ ⟨.gap, (ds.takeWhile isSpace).length⟩ := by
  refine ⟨rfl, ?_⟩
  simp only [drop_length_takeWhile]
  exact h.dropWhile fun _ => by decide

theorem same_comment (h : Text.SameLines cs ds) :
    Same cs ds ⟨.gap, (cs.takeWhile (· ≠ '\n')).length⟩ ⟨.gap, (ds.takeWhile (· ≠ '\n')).length⟩ := by
  refine ⟨rfl, ?_⟩
  simp only [drop_length_takeWhile]
  exact h.dropWhile fun hnewline => absurd hnewline (by decide)

end Readers

/-- The lexemes at the start of the two texts; where they are not skipped they start with the same character. -/
theorem read_same {c c' : Char} {cs ds : List Char} (h : Text.SameLines (c :: cs) (c' :: ds)) :
    Same cs ds (read c cs) (read c' ds) ∧ ((read c cs).kind ≠ .gap → c' = c) := by
  cases h with
  | char _ _ more =>
    refine ⟨?_, fun _ => rfl⟩
    unfold read
    split
    · exact same_space more
    split
    · exact same_backslash more
    split
    · exact same_comment more
    split
    · exact same_word c more
    split
    · exact same_number c more
    split
    · exact same_dash more
    split
    · exact same_string more
    · exact same_mark c more
  | newline more => exact ⟨same_space more, fun hkind => absurd rfl hkind⟩
  | both more => exact ⟨⟨rfl, (same_space more).rest⟩, fun hkind => absurd rfl hkind⟩

end Lexeme

/-! ## Streams -/

/-- Items of a text and of the same text with carriage returns: the same token or failure at the same place. -/
structure StreamItem.Same (text : List Char) (item item' : StreamItem) : Prop where
  content : item'.content = item.content
  head : item'.head = item.head
  place : ∃ before after, text = before ++ after ∧ item.start = Text.byteLength before ∧
    item'.start = Text.byteLength (Text.withReturns before)

namespace Cursor

/-- A cursor stands in a text behind some of its characters. -/
def StandsIn (text : List Char) (cur : Cursor) : Prop :=
  ∃ before, text = before ++ cur.rest ∧ cur.offset = Text.byteLength before

theorem StandsIn.advance {text : List Char} {cur : Cursor} (h : cur.StandsIn text) {c : Char} {cs : List Char}
    (hrest : cur.rest = c :: cs) (extra : Nat) : (cur.advance c cs extra).StandsIn text := by
  obtain ⟨before, htext, hoffset⟩ := h
  refine ⟨before ++ c :: cs.take extra, ?_, ?_⟩
  · rw [htext, hrest, Cursor.advance, List.append_assoc, List.cons_append, List.take_append_drop]
  · rw [Cursor.advance, hoffset, Text.byteLength_append]

/-- Cursors at the same place of a text and of the same text with carriage returns. The second one may stand
inside a line break. -/
structure Same (text : List Char) (cur cur' : Cursor) : Prop where
  rest : Text.SameLines cur.rest cur'.rest
  gap : cur'.gap.map (List.filter (· ≠ '\r')) = cur.gap
  left : cur.StandsIn text
  right : cur'.StandsIn (Text.withReturns text)

variable {text : List Char} {cur cur' : Cursor}

/-- Carriage returns do not end a line. -/
theorem hasLineEnd_filter (continued : Bool) (gap : List Char) :
    hasLineEnd continued (gap.filter (· ≠ '\r')) = hasLineEnd continued gap := by
  induction gap generalizing continued with
  | nil => rfl
  | cons c gap ih =>
    by_cases hc : c = '\r'
    · subst hc
      rw [List.filter_cons_of_neg (by decide), ih, hasLineEnd, if_neg (by decide), if_neg (by decide), if_pos rfl]
    · rw [List.filter_cons_of_pos (by simpa using hc), hasLineEnd, hasLineEnd]
      simp only [ih]

theorem Same.settle_eq (h : Same text cur cur') (t : Token) : cur'.settle t = cur.settle t := by
  have hstart : cur'.startsLine = cur.startsLine := by
    unfold startsLine
    rw [← h.gap]
    cases cur'.gap with
    | none => rfl
    | some gap => exact (hasLineEnd_filter false gap).symm
  unfold settle
  rw [hstart]

/-- Both cursors move behind the lexeme that they stand before. -/
theorem Same.advance (h : Same text cur cur') {c c' : Char} {cs ds : List Char} (hrest : cur.rest = c :: cs)
    (hrest' : cur'.rest = c' :: ds) {l l' : Lexeme} (hsame : Lexeme.Same cs ds l l') :
    Same text (cur.advance c cs l.extra) (cur'.advance c' ds l'.extra) where
  rest := hsame.rest
  gap := by
    -- Without carriage returns the two lexemes are the same characters.
    have htaken : (c' :: ds.take l'.extra).filter (· ≠ '\r') = c :: cs.take l.extra := by
      have hall := h.rest.filter
      rw [hrest, hrest', ← List.take_append_drop l'.extra ds, ← List.cons_append, List.filter_append,
        hsame.rest.filter] at hall
      exact List.append_cancel_right (hall.trans (congrArg _ (List.take_append_drop l.extra cs).symm))
    show (cur'.gap.map (· ++ c' :: ds.take l'.extra)).map (List.filter (· ≠ '\r')) =
      cur.gap.map (· ++ c :: cs.take l.extra)
    rw [← h.gap, Option.map_map, Option.map_map]
    congr 1
    funext gap
    simp only [Function.comp, List.filter_append, htaken]
  left := h.left.advance hrest l.extra
  right := h.right.advance hrest' l'.extra

/-- A cursor that stands before an item stands behind the same characters in both texts. -/
theorem Same.place (h : Same text cur cur') (hreturn : '\r' ∉ text) (hhead : cur.rest.head? ≠ some '\n') :
    ∃ before after, text = before ++ after ∧ cur.offset = Text.byteLength before ∧
      cur'.offset = Text.byteLength (Text.withReturns before) := by
  obtain ⟨before, htext, hoffset⟩ := h.left
  obtain ⟨before', htext', hoffset'⟩ := h.right
  have hmore : '\r' ∉ cur.rest := fun hmem => hreturn (htext ▸ List.mem_append_right before hmem)
  rw [htext] at htext'
  refine ⟨before, cur.rest, htext, hoffset, ?_⟩
  rw [hoffset', h.rest.eq_withReturns hmore hhead htext']

/-- A newline starts no item. -/
theorem head?_ne_newline {c : Char} {cs : List Char} (h : (Lexeme.read c cs).kind ≠ .gap) :
    (c :: cs).head? ≠ some '\n' := by
  intro hhead
  obtain rfl : c = '\n' := Option.some.inj hhead
  exact h rfl

/-- Both streams go on with the same item or end. -/
theorem Same.next? (h : Same text cur cur') (hreturn : '\r' ∉ text) :
    (cur.next? = none ∧ cur'.next? = none) ∨ ∃ item item' after after', cur.next? = some (item, after) ∧
      cur'.next? = some (item', after') ∧ item.Same text item' ∧ Same text after after' := by
  induction hlen : cur.rest.length using Nat.strongRecOn generalizing cur cur' with
  | _ n ih =>
    have hlines := h.rest
    cases hrest : cur.rest with
    | nil =>
      rw [hrest] at hlines
      cases hrest' : cur'.rest with
      | nil => exact .inl ⟨next?_of_nil hrest, next?_of_nil hrest'⟩
      | cons c' ds =>
        rw [hrest'] at hlines
        cases hlines
    | cons c cs =>
      rw [hrest] at hlines
      cases hrest' : cur'.rest with
      | nil =>
        rw [hrest'] at hlines
        cases hlines
      | cons c' ds =>
        rw [hrest'] at hlines
        obtain ⟨hsame, hchar⟩ := Lexeme.read_same hlines
        have hafter := h.advance hrest hrest' hsame
        rw [next?_of_cons hrest, next?_of_cons hrest', hsame.kind]
        cases hkind : (Lexeme.read c cs).kind with
        | gap => exact ih _ (hlen ▸ length_rest_advance hrest _) hafter rfl
        | token t =>
          have hitem : (Lexeme.read c cs).kind ≠ .gap := hkind ▸ LexemeKind.noConfusion
          have hplace := h.place hreturn (hrest ▸ head?_ne_newline hitem)
          refine .inr ⟨_, _, _, _, rfl, rfl, ⟨?_, hchar hitem, hplace⟩, hafter.rest, rfl, hafter.left,
            hafter.right⟩
          exact congrArg Except.ok (h.settle_eq t)
        | failure cause =>
          have hitem : (Lexeme.read c cs).kind ≠ .gap := hkind ▸ LexemeKind.noConfusion
          have hplace := h.place hreturn (hrest ▸ head?_ne_newline hitem)
          exact .inr ⟨_, _, _, _, rfl, rfl, ⟨rfl, hchar hitem, hplace⟩, hafter⟩

/-- The two streams have the same items. -/
theorem Same.items (h : Same text cur cur') (hreturn : '\r' ∉ text) :
    List.Forall₂ (StreamItem.Same text) cur.items cur'.items := by
  fun_induction Cursor.items cur generalizing cur' with
  | case1 cur hnone =>
    rcases h.next? hreturn with ⟨-, hnone'⟩ | ⟨item, item', after, after', hsome, -⟩
    · rw [items_of_next?_eq_none hnone']
      exact .nil
    · exact absurd (hnone.symm.trans hsome) (Option.some_ne_none _).symm
  | case2 cur item after hsome ih =>
    rcases h.next? hreturn with ⟨hnone, -⟩ | ⟨item₀, item', after₀, after', hsome₀, hsome', hitem, hafter⟩
    · exact absurd (hsome.symm.trans hnone) (Option.some_ne_none _)
    · obtain ⟨rfl, rfl⟩ := Prod.mk.inj (Option.some.inj (hsome.symm.trans hsome₀))
      rw [items_of_next?_eq_some hsome']
      exact .cons hitem (ih hafter)

theorem same_ofChars {text : List Char} (h : '\r' ∉ text) :
    Same text (ofChars text) (ofChars (Text.withReturns text)) where
  rest := Text.sameLines_withReturns h
  gap := rfl
  left := ⟨[], rfl, rfl⟩
  right := ⟨[], rfl, rfl⟩

end Cursor

end KconfigLang
