import KconfigLang.Proofs.Token.Layout
import KconfigLang.Proofs.Token.LineLocal

/-!
# Indented help bodies

Lines that are written with an indentation in front of each are read back without it. Tabs go to the next multiple
of eight, so the width of a blank depends on where it stands; what makes the reading exact is that every blank
widens, so that the width of the indentation is reached behind the whole of it and not before.

- `HelpBlock.written`: a help keyword with the lines of its body.
- `HelpBlock.Plain`: lines that need no trimming.
- `HelpBlock.dropIndent_blanks`: an indentation is dropped to its last blank, whatever follows it.
- `HelpBlock.Plain.isBody`: indented, plain lines are a body, and their first one sets its indentation.
- `HelpBlock.Plain.read_written`: what is read of a written body.
- `items_written`: the token that a text yields which starts with a written body.
-/

namespace KconfigLang

namespace HelpBlock

/-- A line with an indentation in front; empty lines have none. -/
def indented (w line : List Char) : List Char :=
  if line = [] then [] else w ++ line

/-- A help keyword with the lines of its body, each of them indented and ended by a newline. -/
def written (w : List Char) (lines : List (List Char)) : List Char :=
  "help\n".toList ++ lines.flatMap fun line => indented w line ++ ['\n']

/-- Lines that stay as they are when they are read as a body: the first one sets the indentation, no blank is lost
at the end of a line, and no line at the end of the body. -/
structure Plain (lines : List (List Char)) : Prop where
  no_newline : ∀ line ∈ lines, '\n' ∉ line
  trimmed : ∀ line ∈ lines, ∀ c ∈ line.getLast?, Text.isWhiteSpace c = false
  starts : ∃ c cs more, lines = (c :: cs) :: more ∧ isIndent c = false
  ends : lines.getLast? ≠ some []

/-! ## The width of an indentation -/

/-- Every blank widens. -/
theorem lt_advance (width : Nat) (c : Char) : width < advance width c := by
  unfold advance
  split <;> omega

theorem le_foldl_advance (w : List Char) (width : Nat) : width ≤ w.foldl advance width := by
  induction w generalizing width with
  | nil => exact Nat.le_refl _
  | cons c w ih => exact Nat.le_trans (Nat.le_of_lt (lt_advance width c)) (ih _)

theorem lt_foldl_advance {w : List Char} (hw : w ≠ []) (width : Nat) : width < w.foldl advance width := by
  obtain ⟨c, w, rfl⟩ := List.exists_cons_of_ne_nil hw
  exact Nat.lt_of_lt_of_le (lt_advance width c) (le_foldl_advance w _)

theorem indentation_blanks {w : List Char} (hblank : ∀ c ∈ w, isIndent c = true) (line : List Char) :
    indentation (w ++ line) = (line.takeWhile isIndent).foldl advance (w.foldl advance 0) := by
  rw [indentation, List.takeWhile_append_of_pos hblank, List.foldl_append]

theorem indentation_blanks_cons {w : List Char} (hblank : ∀ c ∈ w, isIndent c = true) {c : Char}
    (hc : isIndent c = false) (cs : List Char) : indentation (w ++ c :: cs) = w.foldl advance 0 := by
  rw [indentation_blanks hblank, List.takeWhile_cons_of_neg (by simp [hc])]
  rfl

/-- An indentation is dropped to its last blank, whatever follows it. The induction is on the blanks, with the width
that those before them have reached. -/
theorem dropIndent_blanks {w : List Char} (hblank : ∀ c ∈ w, isIndent c = true) (width : Nat)
    (line : List Char) : dropIndent (w.foldl advance width) width (w ++ line) = line := by
  induction w generalizing width with
  | nil =>
    show dropIndent width width line = line
    cases line with
    | nil => rfl
    | cons c cs =>
      rw [dropIndent, if_neg]
      simp
  | cons c w ih =>
    obtain ⟨hc, hblank⟩ := List.forall_mem_cons.mp hblank
    have hwidth : width < (c :: w).foldl advance width := lt_foldl_advance (List.cons_ne_nil c w) width
    rw [List.cons_append, dropIndent, if_pos (by rw [decide_eq_true hwidth, hc]; rfl)]
    exact ih hblank (advance width c)

/-! ## The lines of a body -/

section Lines

variable {w line : List Char} {lines : List (List Char)}

theorem trimEnd_eq_self (h : ∀ c ∈ line.getLast?, Text.isWhiteSpace c = false) : Text.trimEnd line = line := by
  refine List.rdropWhile_eq_self_iff.mpr fun hne => ?_
  rw [h _ (List.getLast?_eq_some_getLast hne)]
  exact Bool.false_ne_true

/-- A line that is not empty has text, for it does not end in white space. -/
theorem isBlank_indented (h : ∀ c ∈ line.getLast?, Text.isWhiteSpace c = false) (w : List Char) :
    Text.isBlank (indented w line) = decide (line = []) := by
  by_cases hline : line = []
  · rw [indented, if_pos hline, hline]
    rfl
  · have hlast := h _ (List.getLast?_eq_some_getLast hline)
    rw [indented, if_neg hline, decide_eq_false hline, Text.isBlank, List.all_append, Bool.and_eq_false_iff]
    exact .inr (List.all_eq_false.mpr ⟨_, List.getLast_mem hline, by rw [hlast]; exact Bool.false_ne_true⟩)

/-- What a body keeps of an indented line. -/
theorem dedent_indented (hblank : ∀ c ∈ w, isIndent c = true)
    (h : ∀ c ∈ line.getLast?, Text.isWhiteSpace c = false) :
    dedent (w.foldl advance 0) (indented w line) = line := by
  rw [dedent, isBlank_indented h]
  by_cases hline : line = []
  · rw [if_pos (decide_eq_true hline), hline]
  · rw [if_neg (by simp [hline]), indented, if_neg hline, dropIndent_blanks hblank, trimEnd_eq_self h]

namespace Plain

/-- The first line has text. -/
theorem exists_cons (h : Plain lines) : ∃ c cs more, lines = (c :: cs) :: more ∧ isIndent c = false ∧
    ∀ w, Text.isBlank (indented w (c :: cs)) = false := by
  obtain ⟨c, cs, more, rfl, hc⟩ := h.starts
  refine ⟨c, cs, more, rfl, hc, fun w => ?_⟩
  rw [isBlank_indented (h.trimmed _ List.mem_cons_self)]
  exact decide_eq_false (List.cons_ne_nil c cs)

/-- The last line has text. -/
theorem dropBlankEnd_eq_self (h : Plain lines) (w : List Char) :
    dropBlankEnd (lines.map (indented w)) = lines.map (indented w) := by
  refine List.rdropWhile_eq_self_iff.mpr fun hne => ?_
  have hlines : lines ≠ [] := fun hnil => hne (by rw [hnil]; rfl)
  have hlast : lines.getLast hlines ≠ [] := by
    intro hnil
    exact h.ends (by rw [List.getLast?_eq_some_getLast hlines, hnil])
  rw [List.getLast_map, isBlank_indented (h.trimmed _ (List.getLast_mem hlines)), decide_eq_false hlast]
  exact Bool.false_ne_true

/-- Indented, plain lines are a body. -/
theorem isBody (h : Plain lines) (hw : w ≠ []) (hblank : ∀ c ∈ w, isIndent c = true) :
    ∃ first, IsBody first (lines.map (indented w)) ∧ indentation first = w.foldl advance 0 := by
  obtain ⟨c, cs, more, hlines, hc, hfirst⟩ := h.exists_cons
  have hindent : indentation (indented w (c :: cs)) = w.foldl advance 0 :=
    indentation_blanks_cons hblank hc cs
  refine ⟨indented w (c :: cs), ⟨?_, ?_, ?_, ?_, h.dropBlankEnd_eq_self w⟩, hindent⟩
  · refine List.forall_mem_map.mpr fun line hline => ?_
    have hnewline := h.no_newline line hline
    unfold indented
    split
    · exact List.not_mem_nil
    · refine fun hmem => (List.mem_append.mp hmem).elim (fun hmem => ?_) hnewline
      exact absurd (hblank _ hmem) (by decide)
  · rw [hlines, List.map_cons]
    exact List.find?_cons_of_pos (by simp [hfirst w])
  · rw [hindent]
    exact Nat.ne_of_gt (lt_foldl_advance hw 0)
  · refine List.forall_mem_map.mpr fun line hline => ?_
    rw [isBlank_indented (h.trimmed line hline), hindent, Bool.or_eq_true, decide_eq_true_eq, decide_eq_true_eq]
    by_cases hempty : line = []
    · exact .inl hempty
    · rw [indented, if_neg hempty, indentation_blanks hblank]
      exact .inr (le_foldl_advance _ _)

/-- The text of that body is that of the lines without the indentation. -/
theorem bodyText_eq (h : Plain lines) (hblank : ∀ c ∈ w, isIndent c = true) {first : List Char}
    (hfirst : indentation first = w.foldl advance 0) :
    bodyText first (lines.map (indented w)) = String.ofList (['\n'].intercalate lines) := by
  have hstart : (lines.map (indented w)).dropWhile Text.isBlank = lines.map (indented w) := by
    obtain ⟨c, cs, more, rfl, -, hline⟩ := h.exists_cons
    exact List.dropWhile_cons_of_neg (by simp [hline w])
  have hdedent : (lines.map (indented w)).map (dedent (w.foldl advance 0)) = lines := by
    rw [List.map_map]
    conv => rhs; rw [← List.map_id lines]
    exact List.map_congr_left fun line hline => dedent_indented hblank (h.trimmed line hline)
  rw [bodyText, hstart, hfirst, hdedent]

/-- What is read behind a keyword of the written lines, if the line behind them has text at its margin or the text
ends there. -/
theorem read_written (h : Plain lines) (hw : w ≠ []) (hblank : ∀ c ∈ w, isIndent c = true) {rest : List Char}
    (hrest : ∀ c ∈ rest.head?, Text.isWhiteSpace c = false) :
    read (behindNewlines (lines.map (indented w)) ++ '\n' :: rest) =
      ⟨String.ofList (['\n'].intercalate lines), (behindNewlines (lines.map (indented w))).length⟩ := by
  obtain ⟨first, hbody, hfirst⟩ := h.isBody hw hblank
  rw [← h.bodyText_eq hblank hfirst, ← behindNewlines_splitOn, ← behindNewlines_append]
  have hmargin : AtMargin (Text.splitOn '\n' rest) := by
    cases rest with
    | nil => exact atMargin_blank
    | cons c cs => exact startsAtMargin_of_not_white (hrest c rfl) cs
  exact hbody.read_behindNewlines (fun line hline => not_mem_of_mem_splitOn hline)
    (isBlank_of_mem_takeWhile hbody.indented hmargin)

end Plain

end Lines

/-- A newline behind each line is a newline before each line and one behind the last. -/
theorem written_append (w : List Char) (lines : List (List Char)) (rest : List Char) :
    written w lines ++ rest = 'h' :: ("elp".toList ++
      (behindNewlines (lines.map (indented w)) ++ '\n' :: rest)) := by
  have hlines : '\n' :: ((lines.flatMap fun line => indented w line ++ ['\n']) ++ rest) =
      behindNewlines (lines.map (indented w)) ++ '\n' :: rest := by
    induction lines with
    | nil => rfl
    | cons line lines ih =>
      rw [List.flatMap_cons, List.map_cons, behindNewlines_cons, List.append_assoc _ (behindNewlines _), ← ih]
      simp
  rw [written, List.append_assoc, ← hlines]
  rfl

end HelpBlock

/-- **Help blocks are read back from their indented lines.** Lines that need no trimming, each written behind the
same blanks, are the text of the first token, whether nothing follows them or a line that is not indented. The token
ends where the last of them ends: one byte of the written body follows, its last newline. -/
theorem items_written {w : List Char} {lines : List (List Char)} {rest : List Char} (hw : w ≠ [])
    (hblank : ∀ c ∈ w, HelpBlock.isIndent c = true) (hlines : HelpBlock.Plain lines)
    (hrest : ∀ c ∈ rest.head?, Text.isWhiteSpace c = false) :
    ∃ item more, (Cursor.ofChars (HelpBlock.written w lines ++ rest)).items = item :: more ∧
      item.content = .ok (.help (String.ofList (['\n'].intercalate lines))) ∧ item.start = 0 ∧
        item.stop + 1 = Text.byteLength (HelpBlock.written w lines) := by
  have hend : AtLineEnd (behindNewlines (lines.map (HelpBlock.indented w)) ++ '\n' :: rest) := by
    obtain ⟨c, cs, tail, rfl, -⟩ := hlines.starts
    exact atLineEnd_newline _
  have hread := Lexeme.read_help hend
  rw [hlines.read_written hw hblank hrest] at hread
  have hrest' : (Cursor.ofChars (HelpBlock.written w lines ++ rest)).rest = _ :=
    HelpBlock.written_append w lines rest
  have hnext := Cursor.next?_of_cons hrest'
  rw [hread] at hnext
  refine ⟨_, _, Cursor.items_of_next?_eq_some hnext, rfl, rfl, ?_⟩
  have hlength : Text.byteLength (HelpBlock.written w lines) =
      Text.byteLength ('h' :: ("elp".toList ++ behindNewlines (lines.map (HelpBlock.indented w)))) + 1 := by
    have htext := HelpBlock.written_append w lines []
    rw [List.append_nil] at htext
    rw [htext, ← List.append_assoc, ← List.cons_append, Text.byteLength_append]
    rfl
  rw [hlength, ← List.append_assoc]
  simp only [Cursor.advance, Cursor.ofChars, ← List.length_append, List.take_left, Nat.zero_add]

/-- A body with an empty line and one that starts with blanks of its own. -/
def memoLines : List (List Char) :=
  ["first".toList, [], " \tindented more".toList]

theorem plain_memoLines : HelpBlock.Plain memoLines where
  no_newline := by decide
  trimmed := by
    have hlast (c : Char) (line : List Char) (hc : Text.isWhiteSpace c = false) :
        ∀ d ∈ (line ++ [c]).getLast?, Text.isWhiteSpace d = false := by
      intro d hd
      rw [List.getLast?_concat] at hd
      obtain rfl := Option.some.inj hd
      exact hc
    refine List.forall_mem_cons.mpr ⟨hlast 't' "firs".toList (by decide), List.forall_mem_cons.mpr ⟨?_, ?_⟩⟩
    · exact fun _ hd => absurd hd (Option.not_mem_none _)
    · exact List.forall_mem_singleton.mpr (hlast 'e' " \tindented mor".toList (by decide))
  starts := ⟨'f', "irst".toList, memoLines.tail, rfl, by decide⟩
  ends := by decide

/-- Behind two tabs these lines are read back before a line with text at its margin. -/
theorem items_written_memoLines :
    (['\t', '\t'] ≠ [] ∧ (∀ c ∈ ['\t', '\t'], HelpBlock.isIndent c = true) ∧ HelpBlock.Plain memoLines ∧
      ∀ c ∈ "endif".toList.head?, Text.isWhiteSpace c = false) ∧
    ∃ item more, (Cursor.ofChars (HelpBlock.written ['\t', '\t'] memoLines ++ "endif".toList)).items =
        item :: more ∧
      item.content = .ok (.help (String.ofList (['\n'].intercalate memoLines))) ∧ item.start = 0 ∧
        item.stop + 1 = Text.byteLength (HelpBlock.written ['\t', '\t'] memoLines) :=
  have hblank : ∀ c ∈ ['\t', '\t'], HelpBlock.isIndent c = true := List.all_eq_true.mp (by decide)
  have hrest : ∀ c ∈ "endif".toList.head?, Text.isWhiteSpace c = false := by
    intro c hc
    obtain rfl : 'e' = c := Option.some.inj hc
    decide
  ⟨⟨by decide, hblank, plain_memoLines, hrest⟩, items_written (by decide) hblank plain_memoLines hrest⟩

end KconfigLang
