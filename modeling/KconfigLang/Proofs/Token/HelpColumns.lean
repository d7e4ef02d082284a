import KconfigLang.Proofs.Token.HelpIndent
import KconfigLang.Proofs.Token.HelpLines

/-!
# The columns of help lines

What is removed from the start of a body's line: the blanks that reach the column at which the first line starts. All
of them are removed as a whole, so a tab that starts before that column and ends behind it takes the columns behind
it along.

- `HelpBlock.Reaches`: some blanks reach a column with the last of them.
- `HelpBlock.KeepsColumns`: the rule by which a line keeps what stands behind the column.
- `HelpBlock.exists_reaches`: the blanks that are removed reach the column.
- `HelpBlock.keepsColumns_iff`: the rule holds of the lines in which no tab crosses the column.
- `help_dedents`: the lines of the help tokens of a text.
-/

namespace KconfigLang

namespace HelpBlock

/-- The column behind some blanks at the start of a line. -/
def column (blanks : List Char) : Nat :=
  blanks.foldl advance 0

/-- Some blanks reach a column, with the last of them and not before. -/
structure Reaches (base : Nat) (blanks : List Char) : Prop where
  indents : ∀ c ∈ blanks, isIndent c = true
  reaches : base ≤ column blanks
  before : ∀ lead c, blanks = lead ++ [c] → column lead < base

/-- A tab at the start of a line starts before a column and ends behind it. -/
def TabCrosses (base : Nat) (line : List Char) : Prop :=
  ∃ lead rest, line = lead ++ '\t' :: rest ∧ (∀ c ∈ lead, isIndent c = true) ∧ column lead < base ∧
    base < column (lead ++ ['\t'])

/-- A line with text keeps what stands behind a column: the blanks up to the column are removed from its start, and of
a tab that crosses it the columns behind it stay, as spaces. -/
def KeepsColumns (base : Nat) (line kept : List Char) : Prop :=
  ∃ removed rest, line = removed ++ rest ∧ (∀ c ∈ removed, isIndent c = true) ∧
    (column removed = base ∧ kept = Text.trimEnd rest ∨
      ∃ lead, removed = lead ++ ['\t'] ∧ column lead < base ∧ base < column removed ∧
        kept = Text.trimEnd (List.replicate (column removed - base) ' ' ++ rest))

/-! ## Blanks that reach a column -/

theorem column_concat (blanks : List Char) (c : Char) : column (blanks ++ [c]) = advance (column blanks) c := by
  rw [column, List.foldl_append]
  rfl

theorem column_lt_append (blanks : List Char) {more : List Char} (h : more ≠ []) :
    column blanks < column (blanks ++ more) := by
  rw [column, column, List.foldl_append]
  exact lt_foldl_advance h _

theorem column_le_append (blanks more : List Char) : column blanks ≤ column (blanks ++ more) := by
  rw [column, column, List.foldl_append]
  exact le_foldl_advance more _

namespace Reaches

variable {base : Nat} {blanks : List Char}

theorem of_eq (hindents : ∀ c ∈ blanks, isIndent c = true) (h : column blanks = base) : Reaches base blanks where
  indents := hindents
  reaches := Nat.le_of_eq h.symm
  before lead c hblanks := by
    rw [← h, hblanks]
    exact column_lt_append lead (List.cons_ne_nil c [])

theorem of_tab {lead : List Char} (hindents : ∀ c ∈ lead, isIndent c = true) (hlead : column lead < base)
    (h : base ≤ column (lead ++ ['\t'])) : Reaches base (lead ++ ['\t']) where
  indents := List.forall_mem_append.mpr ⟨hindents, List.forall_mem_singleton.mpr (by decide)⟩
  reaches := h
  before lead' c hblanks := by
    obtain ⟨rfl, -⟩ := List.append_inj' hblanks rfl
    exact hlead

/-- Blanks that go behind the column end in a tab, for a space is one column wide. -/
theorem eq_or_tab (h : Reaches base blanks) : column blanks = base ∨
    ∃ lead, blanks = lead ++ ['\t'] ∧ column lead < base ∧ base < column blanks := by
  by_cases heq : column blanks = base
  · exact .inl heq
  · have hlt : base < column blanks := Nat.lt_of_le_of_ne h.reaches (Ne.symm heq)
    rcases List.eq_nil_or_concat' blanks with rfl | ⟨lead, c, rfl⟩
    · exact absurd hlt (Nat.not_lt_zero base)
    · have hlead := h.before lead c rfl
      have hc := h.indents c (List.mem_append_right lead (List.mem_singleton_self c))
      refine .inr ⟨lead, ?_, hlead, hlt⟩
      simp only [isIndent, Bool.or_eq_true, decide_eq_true_eq] at hc
      rcases hc with rfl | rfl
      · rw [column_concat, advance, if_neg (by decide)] at hlt
        omega
      · rfl

/-- Of the starts of one line at most one reaches a column. -/
theorem unique {blanks' rest rest' : List Char} (h : Reaches base blanks) (h' : Reaches base blanks')
    (hline : blanks ++ rest = blanks' ++ rest') : blanks = blanks' ∧ rest = rest' := by
  -- The longer start would go on behind the last of its blanks.
  have hshort {v w : List Char} (hv : Reaches base v) (hw : Reaches base (v ++ w)) : w = [] := by
    rcases List.eq_nil_or_concat' w with rfl | ⟨more, c, rfl⟩
    · rfl
    · have hbefore := hw.before (v ++ more) c (by simp)
      have hle := column_le_append v more
      have hreaches := hv.reaches
      omega
  rcases List.append_eq_append_iff.mp hline with ⟨w, rfl, rfl⟩ | ⟨w, rfl, rfl⟩
  · obtain rfl := hshort h h'
    exact ⟨(List.append_nil blanks).symm, rfl⟩
  · obtain rfl := hshort h' h
    exact ⟨List.append_nil blanks', rfl⟩

end Reaches

/-! ## What is removed from a line -/

section Line

variable {base : Nat} {line : List Char}

/-- The blanks that are dropped reach the column, if the blanks of the line do. The induction is on what is left of the
line behind the blanks that have been dropped. -/
theorem exists_reaches_of_dropped {dropped : List Char} (hindents : ∀ c ∈ dropped, isIndent c = true)
    (hbefore : ∀ lead c, dropped = lead ++ [c] → column lead < base)
    (hline : base ≤ indentation (dropped ++ line)) : ∃ removed,
      dropped ++ line = removed ++ dropIndent base (column dropped) line ∧ Reaches base removed := by
  have hindentation := indentation_blanks hindents line
  induction line generalizing dropped with
  | nil =>
    rw [hindentation] at hline
    exact ⟨dropped, rfl, hindents, hline, hbefore⟩
  | cons c cs ih =>
    rw [dropIndent]
    split
    · rename_i hdrop
      obtain ⟨hcolumn, hc⟩ := (Bool.and_eq_true _ _).mp hdrop
      have hindents' : ∀ d ∈ dropped ++ [c], isIndent d = true :=
        List.forall_mem_append.mpr ⟨hindents, List.forall_mem_singleton.mpr hc⟩
      have hsplit : dropped ++ c :: cs = (dropped ++ [c]) ++ cs := by simp
      rw [hsplit] at hline ⊢
      rw [← column_concat]
      refine ih hindents' (fun lead d hdropped => ?_) hline (indentation_blanks hindents' cs)
      obtain ⟨rfl, -⟩ := List.append_inj' hdropped rfl
      exact of_decide_eq_true hcolumn
    · rename_i hkeep
      refine ⟨dropped, rfl, hindents, ?_, hbefore⟩
      by_contra hlt
      -- The line goes on with no blank, so its indentation ends before the column.
      have hcolumn : decide (column dropped < base) = true := decide_eq_true (Nat.lt_of_not_le hlt)
      have hc : ¬ isIndent c = true := fun hc => hkeep (by rw [hcolumn, hc]; rfl)
      rw [hindentation, List.takeWhile_cons_of_neg hc] at hline
      exact hlt hline

/-- The blanks that are removed from a line reach the column. -/
theorem exists_reaches (h : base ≤ indentation line) :
    ∃ removed, line = removed ++ dropIndent base 0 line ∧ Reaches base removed :=
  exists_reaches_of_dropped (List.forall_mem_nil _)
    (fun _ _ hnil => absurd hnil.symm (List.concat_ne_nil _ _)) h

theorem trimEnd_append_of_text (h : Text.isBlank line = false) (lead : List Char) :
    Text.trimEnd (lead ++ line) = lead ++ Text.trimEnd line := by
  have hne : line.reverse.dropWhile Text.isWhiteSpace ≠ [] := by
    intro hnil
    have hall := List.dropWhile_eq_nil_iff.mp hnil
    rw [Text.isBlank, List.all_eq_false] at h
    obtain ⟨c, hc, hwhite⟩ := h
    exact hwhite (hall c (List.mem_reverse.mpr hc))
  rw [Text.trimEnd, Text.trimEnd, List.reverse_append, List.dropWhile_append, List.isEmpty_eq_false_iff.mpr hne]
  simp

/-- The indentation of a line with text is not at its end. -/
theorem indentation_trimEnd (h : Text.isBlank line = false) : indentation (Text.trimEnd line) = indentation line := by
  have htext : Text.isBlank (Text.trimEnd line) = false := (isBlank_trimEnd line).trans h
  rw [Text.isBlank, List.all_eq_false] at htext
  obtain ⟨c, hc, hwhite⟩ := htext
  have hindent : isIndent c = false := Bool.eq_false_iff.mpr fun hc => hwhite (isWhiteSpace_of_isIndent hc)
  have hsplit : Text.trimEnd line ++ line.rtakeWhile Text.isWhiteSpace = line := List.rdropWhile_append_rtakeWhile
  conv => rhs; rw [← hsplit]
  rw [indentation, indentation, takeWhile_append_of_mem hc hindent]

/-- What is left of a line is not indented if nothing but the indentation has been removed. -/
theorem indentation_eq_zero_iff {removed : List Char} (h : ∀ c ∈ removed, isIndent c = true) (rest : List Char) :
    indentation rest = 0 ↔ indentation (removed ++ rest) = column removed := by
  rw [indentation_blanks h, indentation]
  rcases hblanks : rest.takeWhile isIndent with _ | ⟨c, blanks⟩
  · exact iff_of_true rfl rfl
  · have hzero : 0 < (c :: blanks).foldl advance 0 := lt_foldl_advance (List.cons_ne_nil c blanks) 0
    have hlt : column removed < (c :: blanks).foldl advance (removed.foldl advance 0) :=
      lt_foldl_advance (List.cons_ne_nil c blanks) _
    exact iff_of_false (Nat.ne_of_gt hzero) (Nat.ne_of_gt hlt)

/-- A tab crosses the column if the blanks that reach it go on behind it. -/
theorem Reaches.tabCrosses_iff {removed rest : List Char} (h : Reaches base removed) :
    TabCrosses base (removed ++ rest) ↔ column removed ≠ base := by
  constructor
  · rintro ⟨lead, more, hline, hlead, hbefore, hbehind⟩
    have htab := Reaches.of_tab hlead hbefore (Nat.le_of_lt hbehind)
    rw [List.append_cons] at hline
    obtain ⟨rfl, -⟩ := h.unique htab hline
    exact Nat.ne_of_gt hbehind
  · intro hne
    obtain heq | ⟨lead, rfl, hbefore, hbehind⟩ := h.eq_or_tab
    · exact absurd heq hne
    · refine ⟨lead, rest, by simp, fun c hc => ?_, hbefore, hbehind⟩
      exact h.indents c (List.mem_append_left _ hc)

/-- A line keeps the columns behind the column it is cut at, unless a tab crosses it. -/
theorem Reaches.keepsColumns_iff {removed rest : List Char} (h : Reaches base removed)
    (htext : Text.isBlank rest = false) :
    KeepsColumns base (removed ++ rest) (Text.trimEnd rest) ↔ ¬ TabCrosses base (removed ++ rest) := by
  rw [h.tabCrosses_iff, not_not]
  constructor
  · rintro ⟨removed', rest', hline, hindents, ⟨heq, -⟩ | ⟨lead, rfl, hbefore, hbehind, hkept⟩⟩
    · obtain ⟨rfl, -⟩ := h.unique (Reaches.of_eq hindents heq) hline
      exact heq
    · -- The spaces that the rule keeps of the tab are not there.
      have hlead : ∀ c ∈ lead, isIndent c = true := fun c hc => hindents c (List.mem_append_left _ hc)
      obtain ⟨rfl, rfl⟩ := h.unique (Reaches.of_tab hlead hbefore (Nat.le_of_lt hbehind)) hline
      rw [trimEnd_append_of_text htext] at hkept
      have hlength := congrArg List.length hkept
      rw [List.length_append, List.length_replicate] at hlength
      omega
  · intro heq
    exact ⟨removed, rest, rfl, h.indents, .inl ⟨heq, rfl⟩⟩

end Line

/-! ## The lines of a body -/

/-- How a body whose first line with text starts at a column keeps another such line. -/
structure Dedents (base : Nat) (line kept : List Char) : Prop where
  /-- Removed are the blanks that reach the column, the last of them as a whole. So the text of the line starts where
  that of the first one does if the line has no other blanks. -/
  removes : ∃ removed rest, line = removed ++ rest ∧ Reaches base removed ∧ kept = Text.trimEnd rest ∧
    (indentation kept = 0 ↔ indentation line = column removed)
  /-- What stands behind the column is kept, unless a tab crosses it. -/
  keepsColumns_iff : KeepsColumns base line kept ↔ ¬ TabCrosses base line
  /-- Then a line that is indented more deeply than the first one stays so. -/
  deeper : ¬ TabCrosses base line → base < indentation line → indentation kept ≠ 0

theorem dedents_dedent {base : Nat} {line : List Char} (htext : Text.isBlank line = false)
    (h : base ≤ indentation line) : Dedents base line (dedent base line) := by
  obtain ⟨removed, hline, hreaches⟩ := exists_reaches h
  have hrest : Text.isBlank (dropIndent base 0 line) = false := (isBlank_dropIndent base 0 line).trans htext
  have hkept : dedent base line = Text.trimEnd (dropIndent base 0 line) := by
    rw [dedent, htext]
    rfl
  rw [hkept]
  generalize dropIndent base 0 line = rest at hline hrest
  subst hline
  have hflush : indentation (Text.trimEnd rest) = 0 ↔ indentation (removed ++ rest) = column removed := by
    rw [indentation_trimEnd hrest]
    exact indentation_eq_zero_iff hreaches.indents rest
  refine ⟨⟨removed, rest, rfl, hreaches, rfl, hflush⟩, hreaches.keepsColumns_iff hrest, ?_⟩
  intro hcrosses hdeeper hzero
  rw [hreaches.tabCrosses_iff, not_not] at hcrosses
  rw [hflush.mp hzero, hcrosses] at hdeeper
  exact Nat.lt_irrefl base hdeeper

/-- Some lines are those of a body: its first line with text sets the column, blank lines before it are left out, and
each of the others is kept as a line of its own. -/
def Dedented (taken kept : List (List Char)) : Prop :=
  ∃ blanks first lines, taken = blanks ++ first :: lines ∧ (∀ line ∈ blanks, Text.isBlank line = true) ∧
    Text.isBlank first = false ∧
    List.Forall₂ (fun line kept => Text.isBlank line = true ∧ kept = [] ∨
      Text.isBlank line = false ∧ Dedents (indentation first) line kept) (first :: lines) kept

theorem IsBody.dedented {first : List Char} {lines : List (List Char)} (h : IsBody first lines) :
    Dedented lines (Text.splitOn '\n' (bodyText first lines).toList) := by
  obtain ⟨hfirst, blanks, more, hlines, hblanks⟩ := List.find?_eq_some_iff_append.mp h.find_first
  rw [Bool.not_eq_true'] at hfirst
  have hblanks : ∀ line ∈ blanks, Text.isBlank line = true := fun line hline => by simpa using hblanks line hline
  have hdrop : lines.dropWhile Text.isBlank = first :: more := by
    rw [hlines, List.dropWhile_append_of_pos hblanks, List.dropWhile_cons_of_neg (Bool.eq_false_iff.mp hfirst)]
  refine ⟨blanks, first, more, hlines, hblanks, hfirst, ?_⟩
  rw [h.splitOn_bodyText, hdrop, List.forall₂_map_right_iff, List.forall₂_same]
  intro line hline
  have hreaches := h.reaches line (hlines ▸ List.mem_append_right blanks hline)
  rw [Bool.or_eq_true, decide_eq_true_eq] at hreaches
  cases htext : Text.isBlank line with
  | true => exact .inl ⟨rfl, by rw [dedent, if_pos htext]⟩
  | false => exact .inr ⟨rfl, dedents_dedent htext (hreaches.resolve_left (Bool.eq_false_iff.mp htext))⟩

/-- The lines that a body takes are kept as the lines of its text. -/
theorem dedented_linesOf {lines : List (List Char)} (hnewline : ∀ line ∈ lines, '\n' ∉ line) :
    linesOf lines = [] ∧ textOf lines = "" ∨
      Dedented (linesOf lines) (Text.splitOn '\n' (textOf lines).toList) := by
  rcases linesOf_cases hnewline with ⟨hlines, htext, -⟩ | ⟨first, -, htext, hbody⟩
  · exact .inl ⟨hlines, htext⟩
  · rw [htext]
    exact .inr hbody.dedented

end HelpBlock

/-- **What is removed from the lines of a help block**: a help token covers its keyword, the rest of the keyword's line
and some lines, which `HelpBlock.Dedented` relates to the lines of its text. From a line with text the blanks up to the
column of the first one are removed and no more, exactly unless a tab crosses that column; the whole of such a tab is
removed. -/
theorem help_dedents {cs : List Char} {before after : List StreamItem} {item : StreamItem} {body : String}
    (h : (Cursor.ofChars cs).items = before ++ item :: after) (hbody : item.content = .ok (.help body)) :
    ∃ pre, ∃ keyword ∈ Lexeme.helps, ∃ keywordLine taken more,
      cs = pre ++ (keyword ++ keywordLine ++ behindNewlines taken) ++ behindNewlines more ∧
      '\n' ∉ keywordLine ∧ (∀ line ∈ taken ++ more, '\n' ∉ line) ∧
      item.start = Text.byteLength pre ∧
      item.stop = item.start + Text.byteLength (keyword ++ keywordLine ++ behindNewlines taken) ∧
      (taken = [] ∧ body = "" ∨ HelpBlock.Dedented taken (Text.splitOn '\n' body.toList)) := by
  have hplace : (Cursor.ofChars cs).StandsIn cs := ⟨[], rfl, rfl⟩
  obtain ⟨here, behind, ⟨pre, htext, hoffset⟩, hnext, -⟩ := hplace.exists_next? h
  obtain ⟨gap, keyword, hkeyword, block, rest, hrest, hread, hstart, hstop, -⟩ :=
    Cursor.exists_read_of_next? hnext hbody
  obtain ⟨keywordLine, lines, hsplit, hline, hnewline⟩ := HelpBlock.exists_keywordLine (block ++ rest)
  obtain ⟨more, hmore⟩ := HelpBlock.linesOf_isPrefix lines
  rw [hsplit, HelpBlock.read_lines hline hnewline] at hread
  obtain ⟨hbodyText, hlength⟩ := HelpBlock.mk.inj hread
  have hwhole : block ++ rest =
      (keywordLine ++ behindNewlines (HelpBlock.linesOf lines)) ++ behindNewlines more := by
    rw [hsplit, List.append_assoc, ← behindNewlines_append, hmore]
  obtain ⟨rfl, rfl⟩ := List.append_inj hwhole hlength.symm
  refine ⟨pre ++ gap, keyword, hkeyword, keywordLine, HelpBlock.linesOf lines, more, ?_, hline, ?_, ?_, ?_, ?_⟩
  · rw [htext, hrest]
    simp only [List.append_assoc]
  · rwa [hmore]
  · rw [hstart, hoffset, Text.byteLength_append]
  · rw [hstop, List.append_assoc]
  · rw [← hbodyText]
    exact HelpBlock.dedented_linesOf hnewline

/-- A help block whose second line starts with a tab that crosses the column of the first. -/
def tabText : List Char :=
  "help\n    a\n\tb".toList

theorem tokenize_tabText :
    tokenize (.ofChars .root tabText) tabText = .ok [⟨.help "a\nb", ⟨.root, 0, 13, 1, 1⟩⟩] := by
  decide +kernel

/-- The lines of its block are kept in this way. -/
theorem help_dedents_tabText : ∃ before item after body,
    (Cursor.ofChars tabText).items = before ++ item :: after ∧ item.content = .ok (.help body) ∧
    ∃ pre, ∃ keyword ∈ Lexeme.helps, ∃ keywordLine taken more,
      tabText = pre ++ (keyword ++ keywordLine ++ behindNewlines taken) ++ behindNewlines more ∧
      '\n' ∉ keywordLine ∧ (∀ line ∈ taken ++ more, '\n' ∉ line) ∧
      item.start = Text.byteLength pre ∧
      item.stop = item.start + Text.byteLength (keyword ++ keywordLine ++ behindNewlines taken) ∧
      (taken = [] ∧ body = "" ∨ HelpBlock.Dedented taken (Text.splitOn '\n' body.toList)) := by
  obtain ⟨item, hitem, hcontent⟩ := exists_item_of_mem tokenize_tabText List.mem_cons_self
  obtain ⟨before, after, hsplit⟩ := List.append_of_mem hitem
  exact ⟨before, item, after, _, hsplit, hcontent, help_dedents hsplit hcontent⟩

/-- The second line of that text is indented by four columns more than the first, and none of them is left: the line
does not keep its columns, and its text starts where that of the first line does. -/
theorem tabText_loses_columns :
    tokenize (.ofChars .root tabText) tabText = .ok [⟨.help "a\nb", ⟨.root, 0, 13, 1, 1⟩⟩] ∧
    HelpBlock.indentation "    a".toList = 4 ∧ HelpBlock.indentation "\tb".toList = 8 ∧
    ¬ HelpBlock.KeepsColumns 4 "\tb".toList "b".toList ∧ HelpBlock.indentation "b".toList = 0 := by
  have hdedents : HelpBlock.Dedents 4 "\tb".toList (HelpBlock.dedent 4 "\tb".toList) :=
    HelpBlock.dedents_dedent (by decide) (by decide)
  have hcrosses : HelpBlock.TabCrosses 4 "\tb".toList :=
    ⟨[], ['b'], rfl, List.forall_mem_nil _, by decide, by decide⟩
  refine ⟨tokenize_tabText, by decide, by decide, fun hkeeps => ?_, by decide⟩
  exact hdedents.keepsColumns_iff.mp hkeeps hcrosses

end KconfigLang
