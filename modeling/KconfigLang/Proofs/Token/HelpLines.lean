import KconfigLang.Proofs.Token.Layout
import KconfigLang.Proofs.Token.LineLocal

/-!
# The lines of help blocks

Which of the lines behind a help keyword belong to its body: those that are indented as far as the first line with
text, and the blank ones between them. A block ends where a line ends, so the token behind it starts a line.

- `HelpBlock.base`: the indentation that the first line with text sets.
- `HelpBlock.Takes`: some of the lines are those of the body.
- `HelpBlock.exists_takes`: so are the lines that are read.
- `Cursor.exists_read_of_next?`: a help token is a keyword with the block that is read behind it.
- `Cursor.Since`: no token has been read since some place of the text; failures may have been.
- `Cursor.Since.startsLine`: behind the end of a line the next token is the first on its line.
- `help_takes_lines`: the help tokens of a text.
-/

namespace KconfigLang

namespace HelpBlock

/-- The indentation of the first line with text; zero if no line has text. -/
def base (lines : List (List Char)) : Nat :=
  ((lines.find? (!Text.isBlank ·)).map indentation).getD 0

/-- Of the lines behind a keyword the first ones, `taken`, are those of its body. -/
structure Takes (taken more : List (List Char)) (body : String) : Prop where
  /-- Where the first line with text is not indented, or no line has text, nothing is taken. -/
  nothing : base (taken ++ more) = 0 → taken = [] ∧ body = ""
  /-- A line with text is indented as far as the first. -/
  reaches : ∀ line ∈ taken, Text.isBlank line = false → base (taken ++ more) ≤ indentation line
  /-- The last line has text. -/
  last : ∀ line ∈ taken.getLast?, Text.isBlank line = false
  /-- The first line with text behind them is indented less, or not at all. -/
  stops : ∀ line, more.find? (!Text.isBlank ·) = some line →
    indentation line = 0 ∨ indentation line < base (taken ++ more)
  /-- The text of the body has no blank line at its ends. -/
  edges : base (taken ++ more) ≠ 0 → ∀ line, (Text.splitOn '\n' body.toList).head? = some line ∨
    (Text.splitOn '\n' body.toList).getLast? = some line → Text.isBlank line = false

theorem base_of_find? {lines : List (List Char)} {first : List Char}
    (h : lines.find? (!Text.isBlank ·) = some first) : base lines = indentation first := by
  rw [base, h]
  rfl

/-! ## The text of a body -/

theorem isWhiteSpace_of_isIndent {c : Char} (h : isIndent c = true) : Text.isWhiteSpace c = true := by
  simp only [isIndent, Bool.or_eq_true, decide_eq_true_eq] at h
  rcases h with rfl | rfl <;> decide

theorem isBlank_dropIndent (base width : Nat) (line : List Char) :
    Text.isBlank (dropIndent base width line) = Text.isBlank line := by
  induction line generalizing width with
  | nil => rfl
  | cons c cs ih =>
    rw [dropIndent]
    split
    · rename_i hdrop
      have hwhite := isWhiteSpace_of_isIndent ((Bool.and_eq_true _ _).mp hdrop).2
      rw [ih, Text.isBlank, Text.isBlank, List.all_cons, hwhite, Bool.true_and]
    · rfl

theorem isBlank_trimEnd (line : List Char) : Text.isBlank (Text.trimEnd line) = Text.isBlank line := by
  have hsplit : Text.trimEnd line ++ line.rtakeWhile Text.isWhiteSpace = line := List.rdropWhile_append_rtakeWhile
  have hend : Text.isBlank (line.rtakeWhile Text.isWhiteSpace) = true :=
    List.all_eq_true.mpr fun c hc => List.mem_rtakeWhile_imp hc
  conv => rhs; rw [← hsplit]
  rw [Text.isBlank, Text.isBlank, List.all_append]
  rw [Text.isBlank] at hend
  rw [hend, Bool.and_true]

/-- A body keeps the text of its lines. -/
theorem isBlank_dedent (base : Nat) (line : List Char) : Text.isBlank (dedent base line) = Text.isBlank line := by
  unfold dedent
  split
  · rename_i hblank
    exact hblank.symm
  · rw [isBlank_trimEnd, isBlank_dropIndent]

theorem dropIndent_suffix (base width : Nat) (line : List Char) : dropIndent base width line <:+ line := by
  induction line generalizing width with
  | nil => exact List.suffix_rfl
  | cons c cs ih =>
    rw [dropIndent]
    split
    · exact (ih _).trans (List.suffix_cons c cs)
    · exact List.suffix_rfl

theorem dedent_subset (base : Nat) (line : List Char) : dedent base line ⊆ line := by
  unfold dedent
  split
  · exact List.nil_subset line
  · intro c hc
    exact (dropIndent_suffix base 0 line).subset ((List.rdropWhile_prefix Text.isWhiteSpace _).subset hc)

namespace IsBody

variable {first : List Char} {lines : List (List Char)}

/-- From its first line with text a body is not empty. -/
theorem dropWhile_ne_nil (h : IsBody first lines) : lines.dropWhile Text.isBlank ≠ [] := by
  intro hnil
  have hblank := List.dropWhile_eq_nil_iff.mp hnil first (List.mem_of_find?_eq_some h.find_first)
  have hfirst := List.find?_some h.find_first
  simp [hblank] at hfirst

/-- The lines of the text of a body. -/
theorem splitOn_bodyText (h : IsBody first lines) : Text.splitOn '\n' (bodyText first lines).toList =
    (lines.dropWhile Text.isBlank).map (dedent (indentation first)) := by
  rw [bodyText, String.toList_ofList]
  refine List.splitOn_intercalate '\n' (List.forall_mem_map.mpr fun line hline hmem => ?_) ?_
  · exact h.no_newline line ((List.dropWhile_suffix _).subset hline) (dedent_subset _ line hmem)
  · rw [Ne, List.map_eq_nil_iff]
    exact h.dropWhile_ne_nil

theorem isBlank_getLast (h : IsBody first lines) : ∀ line ∈ lines.getLast?, Text.isBlank line = false := by
  intro line hline
  obtain ⟨hne, rfl⟩ := List.mem_getLast?_eq_getLast hline
  exact Bool.eq_false_iff.mpr (List.rdropWhile_eq_self_iff.mp h.last hne)

/-- No line at the ends of the text of a body is blank. -/
theorem edges (h : IsBody first lines) (line : List Char)
    (hline : (Text.splitOn '\n' (bodyText first lines).toList).head? = some line ∨
      (Text.splitOn '\n' (bodyText first lines).toList).getLast? = some line) :
    Text.isBlank line = false := by
  rw [h.splitOn_bodyText, List.head?_map, List.getLast?_map] at hline
  rcases hline with hline | hline
  · obtain ⟨kept, hkept, rfl⟩ := Option.map_eq_some_iff.mp hline
    have hhead := List.head?_dropWhile_not Text.isBlank lines
    rw [hkept] at hhead
    rw [isBlank_dedent]
    simpa using hhead
  · obtain ⟨kept, hkept, rfl⟩ := Option.map_eq_some_iff.mp hline
    obtain ⟨blanks, hsplit⟩ := List.dropWhile_suffix Text.isBlank (l := lines)
    have hlast : lines.getLast? = some kept := by
      rw [← hkept, ← hsplit, List.getLast?_append_of_ne_nil _ h.dropWhile_ne_nil, hsplit]
    rw [isBlank_dedent]
    exact h.isBlank_getLast kept hlast

/-- The lines of a body are taken if the first line with text behind them is indented less. -/
theorem takes (h : IsBody first lines) {more : List (List Char)}
    (hmore : ∀ line, more.find? (!Text.isBlank ·) = some line → indentation line < indentation first) :
    Takes lines more (bodyText first lines) := by
  have hbase : base (lines ++ more) = indentation first :=
    base_of_find? (by rw [List.find?_append, h.find_first, Option.some_or])
  constructor
  · intro hzero
    exact absurd (hbase.symm.trans hzero) h.indented
  · intro line hline hblank
    have hreaches := h.reaches line hline
    rw [hblank, Bool.false_or, decide_eq_true_eq] at hreaches
    rwa [hbase]
  · exact h.isBlank_getLast
  · intro line hline
    rw [hbase]
    exact .inr (hmore line hline)
  · exact fun _ => h.edges

end IsBody

/-! ## The lines behind a keyword -/

/-- No line is taken if the first one with text is not indented. -/
theorem takes_nothing {lines : List (List Char)} (h : base lines = 0) : Takes [] lines "" := by
  constructor
  · exact fun _ => ⟨rfl, rfl⟩
  · exact fun _ hline => absurd hline List.not_mem_nil
  · exact fun _ hline => absurd hline (Option.not_mem_none _)
  · intro line hline
    exact .inl ((base_of_find? hline).symm.trans h)
  · exact fun hbase => absurd h hbase

/-- Of the lines of a text those of its body are taken. -/
theorem takes_linesOf {lines more : List (List Char)} (hnewline : ∀ line ∈ lines, '\n' ∉ line)
    (h : linesOf lines ++ more = lines) : Takes (linesOf lines) more (textOf lines) := by
  rcases linesOf_cases hnewline with ⟨hlines, htext, hfirst⟩ | ⟨first, hlines, htext, hbody⟩
  · have hbase : base lines = 0 := by
      cases hfind : lines.find? (!Text.isBlank ·) with
      | none => rw [base, hfind]; rfl
      | some first => exact (base_of_find? hfind).trans (hfirst first hfind)
    rw [hlines, List.nil_append] at h
    rw [hlines, htext, h]
    exact takes_nothing hbase
  · obtain ⟨behind, hsplit, -, hbehind⟩ := exists_behind_bodyLines (indentation first) lines
    rw [← hlines] at hsplit
    rw [htext, List.append_cancel_left (h.trans hsplit.symm)]
    exact hbody.takes hbehind

/-- What is read behind a keyword: the rest of its line and the lines of its body. -/
theorem exists_takes (rest : List Char) : ∃ keywordLine taken more,
    rest = keywordLine ++ behindNewlines taken ++ behindNewlines more ∧ '\n' ∉ keywordLine ∧
      (∀ line ∈ taken ++ more, '\n' ∉ line) ∧ Takes taken more (read rest).body ∧
        (read rest).extent = (keywordLine ++ behindNewlines taken).length := by
  obtain ⟨keywordLine, lines, rfl, hline, hlines⟩ := exists_keywordLine rest
  obtain ⟨more, hmore⟩ := linesOf_isPrefix lines
  refine ⟨keywordLine, linesOf lines, more, ?_, hline, ?_, ?_, ?_⟩
  · rw [List.append_assoc, ← behindNewlines_append, hmore]
  · rwa [hmore]
  · rw [read_lines hline hlines]
    exact takes_linesOf hlines hmore
  · rw [read_lines hline hlines]

end HelpBlock

/-! ## The stream behind a help block -/

namespace Cursor

variable {text : List Char} {cur after : Cursor} {item : StreamItem} {t : Token}

theorem StandsIn.next? (h : cur.StandsIn text) (hnext : cur.next? = some (item, after)) : after.StandsIn text := by
  obtain ⟨before, htext, hoffset⟩ := h
  obtain ⟨ps, taken, hrest, -, -, hstart, hstop, hafter, -⟩ := next?_cases hnext
  refine ⟨before ++ gapChars ps ++ (item.head :: taken), ?_, ?_⟩
  · rw [htext, hrest]
    simp only [List.append_assoc]
  · rw [hafter, hstop, hstart, hoffset, Text.byteLength_append, Text.byteLength_append]

/-- The cursor in front of an item of a stream. -/
theorem StandsIn.exists_next? (h : cur.StandsIn text) {before later : List StreamItem}
    (hitems : cur.items = before ++ item :: later) : ∃ here after : Cursor, here.StandsIn text ∧
      here.next? = some (item, after) ∧ after.items = later := by
  induction before generalizing cur with
  | nil =>
    obtain ⟨after, hnext, hlater⟩ := exists_next?_of_items hitems
    exact ⟨cur, after, h, hnext, hlater⟩
  | cons first before ih =>
    obtain ⟨after, hnext, hmore⟩ := exists_next?_of_items hitems
    exact ih (h.next? hnext) hmore

/-- No token has been read since `text`, which starts at byte `offset`. -/
def Since (offset : Nat) (text : List Char) (cur : Cursor) : Prop :=
  ∃ gap, cur.gap = some gap ∧ text = gap ++ cur.rest ∧ cur.offset = offset + Text.byteLength gap

theorem Since.advance {offset : Nat} (h : cur.Since offset text) {c : Char} {cs : List Char}
    (hrest : cur.rest = c :: cs) (extra : Nat) : (cur.advance c cs extra).Since offset text := by
  obtain ⟨gap, hgap, htext, hoffset⟩ := h
  refine ⟨gap ++ c :: cs.take extra, by rw [Cursor.advance, hgap]; rfl, ?_, ?_⟩
  · rw [htext, hrest, Cursor.advance, List.append_assoc, List.cons_append, List.take_append_drop]
  · rw [Cursor.advance, hoffset, Text.byteLength_append, Nat.add_assoc]

/-- A failure is no token. -/
theorem Since.next? {offset : Nat} (h : cur.Since offset text) (hnext : cur.next? = some (item, after))
    (hfails : item.content.isOk = false) : after.Since offset text := by
  fun_induction Cursor.next? cur with
  | case1 => exact absurd hnext (Option.some_ne_none _).symm
  | case2 cur c cs hrest lexeme next hkind ih => exact ih (h.advance hrest _) hnext
  | case3 cur c cs hrest lexeme next u hkind =>
    obtain ⟨rfl, -⟩ := Prod.mk.inj (Option.some.inj hnext)
    exact absurd hfails.symm Bool.false_ne_true
  | case4 cur c cs hrest lexeme next cause hkind =>
    obtain ⟨-, rfl⟩ := Prod.mk.inj (Option.some.inj hnext)
    exact h.advance hrest _

/-- Neither is a run of failures. -/
theorem Since.exists_next? {offset : Nat} (h : cur.Since offset text) {failures later : List StreamItem}
    (hitems : cur.items = failures ++ item :: later) (hfails : ∀ item ∈ failures, item.content.isOk = false) :
    ∃ here after : Cursor, here.Since offset text ∧ here.next? = some (item, after) := by
  induction failures generalizing cur with
  | nil =>
    obtain ⟨after, hnext, -⟩ := exists_next?_of_items hitems
    exact ⟨cur, after, h, hnext⟩
  | cons failure failures ih =>
    obtain ⟨hfailure, hfails⟩ := List.forall_mem_cons.mp hfails
    obtain ⟨after, hnext, hmore⟩ := exists_next?_of_items hitems
    exact ih (h.next? hnext hfailure) hmore hfails

/-- Behind the end of a line the next token is the first on its line. -/
theorem Since.startsLine {offset : Nat} (h : cur.Since offset text) (hend : AtLineEnd text)
    (hnext : cur.next? = some (item, after)) (ht : item.content = .ok t) :
    t ≠ .keyword .ifCondition ∧ ∃ gap rest, text = gap ++ rest ∧
      item.start = offset + Text.byteLength gap ∧ hasLineEnd false gap = true := by
  obtain ⟨gap, hgap, htext, hoffset⟩ := h
  obtain ⟨ps, taken, hrest, -, -, hstart, -, -, ⟨u, hkind, hcontent, -⟩ | ⟨_, -, hcause⟩⟩ := next?_cases hnext
  · rw [hrest, ← List.append_assoc] at htext
    -- The gap starts with the newline that ends the line, for the token does not.
    have hline : hasLineEnd false (gap ++ gapChars ps) = true := by
      cases hchars : gap ++ gapChars ps with
      | nil =>
        rw [hchars, List.nil_append] at htext
        have hnewline : item.head = '\n' := hend item.head (by rw [htext]; rfl)
        have hread : (Lexeme.read item.head (taken ++ after.rest)).kind ≠ .gap := by
          rw [hkind]
          exact LexemeKind.noConfusion
        exact absurd (congrArg some hnewline) (head?_ne_newline hread)
      | cons c chars =>
        obtain rfl : c = '\n' := hend c (by rw [htext, hchars]; rfl)
        rfl
    have hstarts : (cur.skip ps (item.head :: taken ++ after.rest)).startsLine = true := by
      simp only [Cursor.startsLine, skip, hgap, Option.map_some]
      exact hline
    refine ⟨?_, gap ++ gapChars ps, item.head :: taken ++ after.rest, htext, ?_, hline⟩
    · rintro rfl
      have hsettle := Except.ok.inj (ht.symm.trans hcontent)
      by_cases hu : u = .keyword .ifCondition
      · subst hu
        rw [settle, hstarts] at hsettle
        exact absurd hsettle (by decide)
      · rw [settle_eq_of_ne hu] at hsettle
        exact hu hsettle.symm
    · rw [hstart, hoffset, Text.byteLength_append, Nat.add_assoc]
  · exact absurd (ht.symm.trans hcause) (by simp)

/-- A help token is a keyword with the block that is read behind it. -/
theorem exists_read_of_next? {body : String} (h : cur.next? = some (item, after))
    (hbody : item.content = .ok (.help body)) : ∃ gap, ∃ keyword ∈ Lexeme.helps, ∃ block more,
      cur.rest = gap ++ (keyword ++ block) ++ more ∧ HelpBlock.read (block ++ more) = ⟨body, block.length⟩ ∧
      item.start = cur.offset + Text.byteLength gap ∧
      item.stop = item.start + Text.byteLength (keyword ++ block) ∧ after.Since item.stop more := by
  obtain ⟨ps, chars, hrest, -, hextra, hstart, hstop, hafter, ⟨u, hkind, hcontent, hgap⟩ | ⟨_, -, hcause⟩⟩ :=
    next?_cases h
  · obtain rfl : u = .help body := eq_of_settle (Except.ok.inj (hbody.symm.trans hcontent)).symm nofun nofun
    have hread : Lexeme.read item.head (chars ++ after.rest) = ⟨.token (.help body), chars.length⟩ := by
      rw [← hkind, ← hextra]
    obtain ⟨keyword, hkeyword, text, hsplit, rfl, hlength⟩ := Lexeme.exists_of_read_help hread
    obtain ⟨block, more, rfl, hblock, -⟩ := HelpBlock.read_extent text
    -- The keyword and the block are the whole token, and the text behind the block is left.
    have hwhole : (item.head :: chars) ++ after.rest = (keyword ++ block) ++ more := by
      rw [List.cons_append, hsplit, List.append_assoc]
    obtain ⟨htoken, hmore⟩ := List.append_inj hwhole (by
      simp only [List.length_append, List.length_cons]
      omega)
    refine ⟨gapChars ps, keyword, hkeyword, block, more, ?_, ?_, hstart, ?_, ?_⟩
    · rw [hrest, htoken, hmore]
      exact (List.append_assoc _ _ _).symm
    · rw [hblock]
    · rw [hstop, htoken]
    · exact ⟨[], hgap, hmore.symm, hafter⟩
  · exact nomatch hbody.symm.trans hcause

/-- A help token is read from a keyword, the rest of its line and the lines that its body takes. -/
theorem exists_takes_of_next? {body : String} (h : cur.next? = some (item, after))
    (hbody : item.content = .ok (.help body)) : ∃ gap, ∃ keyword ∈ Lexeme.helps, ∃ keywordLine taken more,
      cur.rest = gap ++ (keyword ++ keywordLine ++ behindNewlines taken) ++ behindNewlines more ∧
      '\n' ∉ keywordLine ∧ (∀ line ∈ taken ++ more, '\n' ∉ line) ∧ HelpBlock.Takes taken more body ∧
      item.start = cur.offset + Text.byteLength gap ∧
      item.stop = item.start + Text.byteLength (keyword ++ keywordLine ++ behindNewlines taken) ∧
      after.Since item.stop (behindNewlines more) := by
  obtain ⟨gap, keyword, hkeyword, block, more, hrest, hread, hstart, hstop, hsince⟩ := exists_read_of_next? h hbody
  obtain ⟨keywordLine, taken, lines, hsplit, hline, hnewline, htakes, hextent⟩ :=
    HelpBlock.exists_takes (block ++ more)
  rw [hread] at htakes hextent
  obtain ⟨rfl, rfl⟩ := List.append_inj hsplit hextent
  simp only [← List.append_assoc] at hrest hstop
  refine ⟨gap, keyword, hkeyword, keywordLine, taken, lines, ?_, hline, hnewline, htakes, hstart, hstop, hsince⟩
  simp only [hrest, List.append_assoc]

end Cursor

/-- **A help block takes exactly its own lines.** A help token covers its keyword, the rest of the keyword's line
and the lines of its body, which `HelpBlock.Takes` describes; what follows are the other lines, each behind its
newline. So the token behind it, failures apart, is the first on its line, and if it is an `if` it opens a block. -/
theorem help_takes_lines {cs : List Char} {before after : List StreamItem} {item : StreamItem} {body : String}
    (h : (Cursor.ofChars cs).items = before ++ item :: after) (hbody : item.content = .ok (.help body)) :
    ∃ pre, ∃ keyword ∈ Lexeme.helps, ∃ keywordLine taken more,
      cs = pre ++ (keyword ++ keywordLine ++ behindNewlines taken) ++ behindNewlines more ∧
      '\n' ∉ keywordLine ∧ (∀ line ∈ taken ++ more, '\n' ∉ line) ∧
      item.start = Text.byteLength pre ∧
      item.stop = item.start + Text.byteLength (keyword ++ keywordLine ++ behindNewlines taken) ∧
      HelpBlock.Takes taken more body ∧
      ∀ failures next later, after = failures ++ next :: later →
        (∀ failure ∈ failures, failure.content.isOk = false) → ∀ t, next.content = .ok t →
          t ≠ .keyword .ifCondition ∧ ∃ gap rest, behindNewlines more = gap ++ rest ∧
            next.start = item.stop + Text.byteLength gap ∧ Cursor.hasLineEnd false gap = true := by
  have hplace : (Cursor.ofChars cs).StandsIn cs := ⟨[], rfl, rfl⟩
  obtain ⟨here, behind, ⟨pre, htext, hoffset⟩, hnext, hafter⟩ := hplace.exists_next? h
  obtain ⟨gap, keyword, hkeyword, keywordLine, taken, more, hrest, hline, hnewline, htakes, hstart, hstop, hsince⟩ :=
    Cursor.exists_takes_of_next? hnext hbody
  refine ⟨pre ++ gap, keyword, hkeyword, keywordLine, taken, more, ?_, hline, hnewline, ?_, hstop, htakes, ?_⟩
  · rw [htext, hrest]
    simp only [List.append_assoc]
  · rw [hstart, hoffset, Text.byteLength_append]
  · intro failures next later hsplit hfails t ht
    obtain ⟨there, more', hthere, hnext'⟩ := hsince.exists_next? (hafter.trans hsplit) hfails
    exact hthere.startsLine (atLineEnd_behindNewlines more) hnext' ht

/-- A help block with blank lines, the last one of which it leaves, and an `if` behind it. -/
def proseText : List Char :=
  "config A\n\thelp # me\n\t  if \\\n\n\t  B\n\t\nif X".toList

/-- The tokens of that text. -/
def proseTokens : List Lexed :=
  [⟨.keyword .config, ⟨.root, 0, 6, 1, 1⟩⟩, ⟨.ident "A", ⟨.root, 7, 8, 1, 8⟩⟩,
    ⟨.help "if \\\n\nB", ⟨.root, 10, 33, 2, 2⟩⟩, ⟨.keyword .ifBlock, ⟨.root, 36, 38, 7, 1⟩⟩,
    ⟨.ident "X", ⟨.root, 39, 40, 7, 4⟩⟩]

theorem tokenize_proseText : tokenize (.ofChars .root proseText) proseText = .ok proseTokens := by
  decide +kernel

/-- So does the block of that text, which leaves the blank line before the `if`. -/
theorem help_takes_lines_of_proseText : ∃ before item after body,
    (Cursor.ofChars proseText).items = before ++ item :: after ∧ item.content = .ok (.help body) ∧
    ∃ pre, ∃ keyword ∈ Lexeme.helps, ∃ keywordLine taken more,
      proseText = pre ++ (keyword ++ keywordLine ++ behindNewlines taken) ++ behindNewlines more ∧
      '\n' ∉ keywordLine ∧ (∀ line ∈ taken ++ more, '\n' ∉ line) ∧
      item.start = Text.byteLength pre ∧
      item.stop = item.start + Text.byteLength (keyword ++ keywordLine ++ behindNewlines taken) ∧
      HelpBlock.Takes taken more body ∧
      ∀ failures next later, after = failures ++ next :: later →
        (∀ failure ∈ failures, failure.content.isOk = false) → ∀ t, next.content = .ok t →
          t ≠ .keyword .ifCondition ∧ ∃ gap rest, behindNewlines more = gap ++ rest ∧
            next.start = item.stop + Text.byteLength gap ∧ Cursor.hasLineEnd false gap = true := by
  have hmem : proseTokens[2] ∈ proseTokens := List.getElem_mem (by decide)
  obtain ⟨item, hitem, hcontent⟩ := exists_item_of_mem tokenize_proseText hmem
  obtain ⟨before, after, hsplit⟩ := List.append_of_mem hitem
  exact ⟨before, item, after, _, hsplit, hcontent, help_takes_lines hsplit hcontent⟩

end KconfigLang
