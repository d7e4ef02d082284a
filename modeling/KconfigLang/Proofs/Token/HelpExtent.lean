import KconfigLang.Proofs.Text.Lines
import KconfigLang.Token.HelpBlock
import Mathlib.Data.List.DropRight

/-!
# The extent of help blocks

Which part of a text the body of a help block takes, and how the same body is written in another text.

- `HelpBlock.bodyLines_prefix`: the lines of a body are the first of those behind the keyword.
- `HelpBlock.read_lines`: the text and the lines of a body, where `linesOf` and `textOf` say which these are.
- `HelpBlock.read_extent`: a block lies inside its text and ends where a line ends.
- `HelpBlock.isBody_bodyLines`: the lines of a body reach its indentation, and start and end with text.
- `HelpBlock.linesOf_cases`: the lines behind a keyword hold no body, or start with one.
- `HelpBlock.exists_lines`: a body is read again wherever a line that is not indented follows it.
-/

namespace KconfigLang

namespace HelpBlock

theorem bodyLines_prefix (base : Nat) (lines : List (List Char)) : bodyLines base lines <+: lines :=
  (List.rdropWhile_prefix Text.isBlank _).trans (List.takeWhile_prefix _)

theorem foldl_length_eq (lines : List (List Char)) (n : Nat) :
    lines.foldl (fun n line => n + line.length + 1) n = n + (behindNewlines lines).length := by
  induction lines generalizing n with
  | nil => rfl
  | cons line lines ih =>
    rw [List.foldl_cons, ih, behindNewlines_cons]
    simp only [List.length_append, List.length_cons]
    omega

/-! ## Behind a keyword -/

/-- The text of a body. -/
def bodyText (first : List Char) (lines : List (List Char)) : String :=
  String.ofList (['\n'].intercalate ((lines.dropWhile Text.isBlank).map (dedent (indentation first))))

/-- The lines that a body takes of those behind its keyword. -/
def linesOf (lines : List (List Char)) : List (List Char) :=
  match lines.find? (!Text.isBlank ·) with
  | none => []
  | some first => if indentation first = 0 then [] else bodyLines (indentation first) lines

/-- The text of the body that starts behind its keyword. -/
def textOf (lines : List (List Char)) : String :=
  match lines.find? (!Text.isBlank ·) with
  | none => ""
  | some first => if indentation first = 0 then "" else bodyText first (bodyLines (indentation first) lines)

theorem linesOf_isPrefix (lines : List (List Char)) : linesOf lines <+: lines := by
  unfold linesOf
  split
  · exact List.nil_prefix
  · split
    · exact List.nil_prefix
    · exact bodyLines_prefix _ _

/-- What is read behind the line of a keyword. -/
theorem read_behind {keywordLine : List Char} (h : '\n' ∉ keywordLine) (cs : List Char) :
    read (keywordLine ++ '\n' :: cs) = ⟨textOf (Text.splitOn '\n' cs),
      (keywordLine ++ behindNewlines (linesOf (Text.splitOn '\n' cs))).length⟩ := by
  have hkeyword : (keywordLine ++ '\n' :: cs).takeWhile (· ≠ '\n') = keywordLine := by
    rw [List.takeWhile_append_of_pos fun c hc => ?_, List.takeWhile_cons_of_neg (by decide), List.append_nil]
    simpa using ne_of_mem_of_not_mem hc h
  have hlength : ¬ keywordLine.length = (keywordLine ++ '\n' :: cs).length := by simp
  have hdrop : (keywordLine ++ '\n' :: cs).drop (keywordLine.length + 1) = cs := by
    rw [← List.drop_drop, List.drop_left]
    rfl
  unfold read textOf linesOf
  simp only [hkeyword, if_neg hlength, hdrop]
  cases (Text.splitOn '\n' cs).find? (!Text.isBlank ·) with
  | none => simp
  | some first =>
    simp only
    split
    · simp
    · rw [foldl_length_eq, List.length_append, Nat.zero_add]
      rfl

theorem count_behindNewlines {lines : List (List Char)} (h : ∀ line ∈ lines, '\n' ∉ line) :
    (behindNewlines lines).count '\n' = lines.length := by
  induction lines with
  | nil => rfl
  | cons line lines ih =>
    obtain ⟨hline, hlines⟩ := List.forall_mem_cons.mp h
    rw [behindNewlines_cons, List.count_append, List.count_cons_self, List.count_eq_zero.mpr hline, ih hlines,
      List.length_cons]
    omega

/-- Behind the line of a keyword, and behind the lines of the body too. -/
theorem exists_read_behind {keywordLine : List Char} (h : '\n' ∉ keywordLine) (cs : List Char) :
    ∃ taken more, keywordLine ++ '\n' :: cs = taken ++ more ∧ AtLineEnd more ∧
      taken.count '\n' = (linesOf (Text.splitOn '\n' cs)).length ∧
      (read (keywordLine ++ '\n' :: cs)).extent = taken.length := by
  obtain ⟨more, hlines⟩ := linesOf_isPrefix (Text.splitOn '\n' cs)
  refine ⟨keywordLine ++ behindNewlines (linesOf (Text.splitOn '\n' cs)), behindNewlines more, ?_,
    atLineEnd_behindNewlines more, ?_, ?_⟩
  · rw [List.append_assoc, ← behindNewlines_append, hlines, behindNewlines_splitOn]
  · rw [List.count_append, List.count_eq_zero.mpr h, Nat.zero_add]
    exact count_behindNewlines fun line hline =>
      not_mem_of_mem_splitOn ((linesOf_isPrefix (Text.splitOn '\n' cs)).subset hline)
  · rw [read_behind h]

/-- A text without newlines is the rest of the line of the keyword. -/
theorem read_of_not_mem {rest : List Char} (h : '\n' ∉ rest) : read rest = ⟨"", rest.length⟩ := by
  have hkeyword : rest.takeWhile (· ≠ '\n') = rest :=
    List.takeWhile_eq_self_iff.mpr fun c hc => by simpa using ne_of_mem_of_not_mem hc h
  unfold read
  simp only [hkeyword, if_true]

/-- A text is the rest of the line of a keyword with some lines behind it. -/
theorem exists_keywordLine (rest : List Char) : ∃ keywordLine lines,
    rest = keywordLine ++ behindNewlines lines ∧ '\n' ∉ keywordLine ∧ ∀ line ∈ lines, '\n' ∉ line := by
  by_cases hnewline : '\n' ∈ rest
  · obtain ⟨keywordLine, cs, rfl, hline⟩ := List.eq_append_cons_of_mem hnewline
    refine ⟨keywordLine, Text.splitOn '\n' cs, ?_, hline, fun line hmem => not_mem_of_mem_splitOn hmem⟩
    rw [behindNewlines_splitOn]
  · exact ⟨rest, [], (List.append_nil rest).symm, hnewline, List.forall_mem_nil _⟩

/-- What is read in front of some lines, which may be none. -/
theorem read_lines {keywordLine : List Char} {lines : List (List Char)} (h : '\n' ∉ keywordLine)
    (hlines : ∀ line ∈ lines, '\n' ∉ line) : read (keywordLine ++ behindNewlines lines) =
      ⟨textOf lines, (keywordLine ++ behindNewlines (linesOf lines)).length⟩ := by
  cases lines with
  | nil =>
    have hnothing : linesOf [] = [] := rfl
    rw [hnothing, behindNewlines_nil, List.append_nil, read_of_not_mem h]
    rfl
  | cons line more =>
    have hcs : behindNewlines (line :: more) = '\n' :: (line ++ behindNewlines more) := behindNewlines_cons line more
    rw [hcs, read_behind h, splitOn_of_behindNewlines hcs hlines]

/-- A help block takes the rest of its keyword's line and some of the lines behind it. -/
theorem read_extent (rest : List Char) : ∃ taken more, rest = taken ++ more ∧
    taken.length = (read rest).extent ∧ AtLineEnd more := by
  obtain ⟨keywordLine, lines, rfl, hline, hlines⟩ := exists_keywordLine rest
  obtain ⟨more, hmore⟩ := linesOf_isPrefix lines
  refine ⟨keywordLine ++ behindNewlines (linesOf lines), behindNewlines more, ?_, ?_, atLineEnd_behindNewlines more⟩
  · rw [List.append_assoc, ← behindNewlines_append, hmore]
  · rw [read_lines hline hlines]

/-! ## The same body in another text -/

/-- Nothing follows, or a line that is not indented. -/
def EndsBody (rest : List Char) : Prop :=
  rest = [] ∨ ∃ c cs, rest = '\n' :: c :: cs ∧ Text.isWhiteSpace c = false

theorem EndsBody.atLineEnd {rest : List Char} (h : EndsBody rest) : AtLineEnd rest := by
  rcases h with rfl | ⟨c, cs, rfl, -⟩
  · exact atLineEnd_nil
  · exact atLineEnd_newline _

/-- The first line behind a body starts with the character behind the newline. -/
theorem splitOn_of_not_white {c : Char} (hc : Text.isWhiteSpace c = false) (cs : List Char) :
    ∃ line lines, Text.splitOn '\n' (c :: cs) = (c :: line) :: lines := by
  have hne : ¬ (c == '\n') = true := by
    intro heq
    rw [eq_of_beq heq] at hc
    exact absurd hc (by decide)
  obtain ⟨line, lines, hlines⟩ := List.exists_cons_of_ne_nil (List.splitOn_ne_nil '\n' cs)
  refine ⟨line, lines, ?_⟩
  show List.splitOn '\n' (c :: cs) = _
  rw [List.splitOn_cons_eq_if_modifyHead, if_neg hne, hlines]
  rfl

theorem isBlank_cons_of_not_white {c : Char} (hc : Text.isWhiteSpace c = false) (line : List Char) :
    Text.isBlank (c :: line) = false := by
  simp [Text.isBlank, hc]

theorem indentation_of_not_white {c : Char} (hc : Text.isWhiteSpace c = false) (line : List Char) :
    indentation (c :: line) = 0 := by
  have hindent : ¬ isIndent c = true := by
    simp only [isIndent, Bool.or_eq_true, decide_eq_true_eq]
    rintro (rfl | rfl) <;> exact absurd hc (by decide)
  rw [indentation, List.takeWhile_cons_of_neg hindent]
  rfl

/-- The lines of a body whose first line with text is `first`. -/
structure IsBody (first : List Char) (lines : List (List Char)) : Prop where
  no_newline : ∀ line ∈ lines, '\n' ∉ line
  find_first : lines.find? (!Text.isBlank ·) = some first
  indented : indentation first ≠ 0
  reaches : ∀ line ∈ lines, (Text.isBlank line || decide (indentation first ≤ indentation line)) = true
  last : dropBlankEnd lines = lines

/-- The lines of a body are indented as far as it; the first line with text behind them is not. -/
theorem exists_behind_bodyLines (width : Nat) (lines : List (List Char)) : ∃ more,
    bodyLines width lines ++ more = lines ∧
      (∀ line ∈ bodyLines width lines, (Text.isBlank line || decide (width ≤ indentation line)) = true) ∧
      ∀ line, more.find? (!Text.isBlank ·) = some line → indentation line < width := by
  let p := fun line => Text.isBlank line || decide (width ≤ indentation line)
  have hkept : bodyLines width lines ++ (lines.takeWhile p).rtakeWhile Text.isBlank = lines.takeWhile p :=
    List.rdropWhile_append_rtakeWhile
  have hblank : ((lines.takeWhile p).rtakeWhile Text.isBlank).find? (!Text.isBlank ·) = none :=
    List.find?_eq_none.mpr fun line hline => by simp [List.mem_rtakeWhile_imp hline]
  -- The body leaves the blank lines at its end, and those from the first that is indented less.
  refine ⟨(lines.takeWhile p).rtakeWhile Text.isBlank ++ lines.dropWhile p, ?_, fun line hline => ?_, ?_⟩
  · rw [← List.append_assoc, hkept, List.takeWhile_append_dropWhile]
  · exact List.mem_takeWhile_imp (p := p) (hkept ▸ List.mem_append_left _ hline)
  · intro line hline
    rw [List.find?_append, hblank, Option.none_or] at hline
    have hhead := List.head?_dropWhile_not p lines
    cases hdrop : lines.dropWhile p with
    | nil =>
      rw [hdrop] at hline
      exact absurd hline (Option.some_ne_none _).symm
    | cons next behind =>
      rw [hdrop] at hhead hline
      obtain ⟨htext, hless⟩ : Text.isBlank next = false ∧ ¬ width ≤ indentation next := by
        simpa [p] using hhead
      rw [List.find?_cons_of_pos (by simp [htext])] at hline
      obtain rfl := Option.some.inj hline
      omega

/-- Which lines of a text are its body. -/
theorem isBody_bodyLines {lines : List (List Char)} {first : List Char}
    (hlines : ∀ line ∈ lines, '\n' ∉ line) (hfirst : lines.find? (!Text.isBlank ·) = some first)
    (hindent : indentation first ≠ 0) : IsBody first (bodyLines (indentation first) lines) := by
  obtain ⟨more, hsplit, hreaches, hmore⟩ := exists_behind_bodyLines (indentation first) lines
  have hfind : (bodyLines (indentation first) lines ++ more).find? (!Text.isBlank ·) = some first := by
    rwa [hsplit]
  have hlead := bodyLines_prefix (indentation first) lines
  refine ⟨fun line hline => ?_, ?_, hindent, hreaches, List.rdropWhile_idempotent Text.isBlank _⟩
  · exact hlines line (hlead.subset hline)
  · cases hbody : (bodyLines (indentation first) lines).find? (!Text.isBlank ·) with
    | some line => rwa [List.find?_append, hbody, Option.some_or] at hfind
    | none =>
      rw [List.find?_append, hbody, Option.none_or] at hfind
      exact absurd (hmore first hfind) (Nat.lt_irrefl _)

/-- Some lines hold no body, as no line with text is indented first, or their first ones are a body. -/
theorem linesOf_cases {lines : List (List Char)} (hlines : ∀ line ∈ lines, '\n' ∉ line) :
    (linesOf lines = [] ∧ textOf lines = "" ∧
        ∀ first, lines.find? (!Text.isBlank ·) = some first → indentation first = 0) ∨
      ∃ first, linesOf lines = bodyLines (indentation first) lines ∧ textOf lines = bodyText first (linesOf lines) ∧
        IsBody first (linesOf lines) := by
  unfold linesOf textOf
  cases hfirst : lines.find? (!Text.isBlank ·) with
  | none => exact .inl ⟨rfl, rfl, fun _ hsome => absurd hsome (Option.some_ne_none _).symm⟩
  | some first =>
    by_cases hindent : indentation first = 0
    · refine .inl ⟨if_pos hindent, if_pos hindent, fun line hline => ?_⟩
      rwa [← Option.some.inj hline]
    · simp only [if_neg hindent]
      exact .inr ⟨first, rfl, rfl, isBody_bodyLines hlines hfirst hindent⟩

/-- Blank lines behind the lines of a body belong to its end. -/
theorem dropBlankEnd_append {lines blanks : List (List Char)} (h : ∀ line ∈ blanks, Text.isBlank line = true) :
    dropBlankEnd (lines ++ blanks) = dropBlankEnd lines := by
  have hreverse : ∀ line ∈ blanks.reverse, Text.isBlank line = true :=
    fun line hline => h line (List.mem_reverse.mp hline)
  rw [dropBlankEnd, dropBlankEnd, List.reverse_append, List.dropWhile_append_of_pos hreverse]

/-- The lines of a body are read as that body if the others behind them go on with blank lines, at most, before
one that is indented less. -/
theorem IsBody.read_behindNewlines {first : List Char} {lines more : List (List Char)} (h : IsBody first lines)
    (hnewline : ∀ line ∈ more, '\n' ∉ line)
    (hmore : ∀ line ∈ more.takeWhile
      (fun line => Text.isBlank line || decide (indentation first ≤ indentation line)),
      Text.isBlank line = true) :
    read (behindNewlines (lines ++ more)) = ⟨bodyText first lines, (behindNewlines lines).length⟩ := by
  have hbody : bodyLines (indentation first) (lines ++ more) = lines := by
    unfold bodyLines
    rw [List.takeWhile_append_of_pos h.reaches, dropBlankEnd_append hmore, h.last]
  have hfirst : (lines ++ more).find? (!Text.isBlank ·) = some first := by
    rw [List.find?_append, h.find_first, Option.some_or]
  have hread := read_lines List.not_mem_nil (List.forall_mem_append.mpr ⟨h.no_newline, hnewline⟩)
  simpa only [textOf, linesOf, hfirst, if_neg h.indented, hbody, List.nil_append] using hread

/-- A line that is not indented ends every body. -/
theorem IsBody.takeWhile_of_not_white {first : List Char} {lines : List (List Char)} (h : IsBody first lines)
    {c : Char} (hc : Text.isWhiteSpace c = false) (line : List Char) (more : List (List Char)) :
    ((c :: line) :: more).takeWhile
      (fun line => Text.isBlank line || decide (indentation first ≤ indentation line)) = [] := by
  have hblank := isBlank_cons_of_not_white hc line
  have hindent := indentation_of_not_white hc line
  have hindented := h.indented
  refine List.takeWhile_cons_of_neg ?_
  simp [hblank, hindent, hindented]

/-- The lines of a body are read as that body before the end of a text and before a line that is not
indented. -/
theorem IsBody.read_eq {first : List Char} {lines : List (List Char)} (h : IsBody first lines)
    {rest : List Char} (hrest : EndsBody rest) :
    read (behindNewlines lines ++ rest) = ⟨bodyText first lines, (behindNewlines lines).length⟩ := by
  rcases hrest with rfl | ⟨c, cs, rfl, hc⟩
  · have hread := h.read_behindNewlines (List.forall_mem_nil _) (List.forall_mem_nil _)
    rwa [List.append_nil] at hread ⊢
  · obtain ⟨line, more, hsplit⟩ := splitOn_of_not_white hc cs
    rw [← behindNewlines_splitOn, ← behindNewlines_append, hsplit]
    refine h.read_behindNewlines (fun l hl => not_mem_of_mem_splitOn (hsplit ▸ hl)) ?_
    rw [h.takeWhile_of_not_white hc]
    exact List.forall_mem_nil _

/-- Behind a keyword alone no body is read before such a line. -/
theorem read_eq_empty {rest : List Char} (hrest : EndsBody rest) : read rest = ⟨"", 0⟩ := by
  rcases hrest with rfl | ⟨c, cs, rfl, hc⟩
  · rfl
  · obtain ⟨line, lines, hlines⟩ := splitOn_of_not_white hc cs
    have hfirst : ((c :: line) :: lines).find? (!Text.isBlank ·) = some (c :: line) :=
      List.find?_cons_of_pos (by simp [isBlank_cons_of_not_white hc])
    have hread := read_behind List.not_mem_nil (c :: cs)
    simp only [hlines, textOf, linesOf, hfirst, indentation_of_not_white hc, if_true] at hread
    exact hread

/-- Every body is written as some lines behind newlines, which are read as that body wherever the text ends or
a line follows that is not indented. -/
theorem exists_lines (r : List Char) : ∃ cs, AtLineEnd cs ∧
    ∀ rest, EndsBody rest → read (cs ++ rest) = ⟨(read r).body, cs.length⟩ := by
  have hempty : ∃ cs, AtLineEnd cs ∧ ∀ rest, EndsBody rest → read (cs ++ rest) = ⟨"", cs.length⟩ :=
    ⟨[], atLineEnd_nil, fun _ h => read_eq_empty h⟩
  obtain ⟨keywordLine, lines, rfl, hline, hlines⟩ := exists_keywordLine r
  rw [read_lines hline hlines]
  rcases linesOf_cases hlines with ⟨-, htext, -⟩ | ⟨first, -, htext, hbody⟩
  · rw [htext]
    exact hempty
  · rw [htext]
    exact ⟨_, atLineEnd_behindNewlines _, fun rest hrest => hbody.read_eq hrest⟩

end HelpBlock

end KconfigLang
