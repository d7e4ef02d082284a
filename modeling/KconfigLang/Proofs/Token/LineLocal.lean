import KconfigLang.Proofs.Token.LineBreaks

/-!
# Reading is local to lines

What is read at the start of a text that ends with a newline does not depend on the lines behind it. Only help
blocks look at them, and one that could go on there ends before a line that is not indented.

- `EndsLine`: a text of whole lines.
- `StartsAtMargin`: nothing indented comes first in a text.
- `HelpBlock.read_append`: a help block ends before such a text.
- `Literal.literalLength?_newline`: a string literal ends on its line.
- `Lexeme.read_newline`: so does every token other than a help block.
- `Lexeme.read_append`: a lexeme other than white space sees nothing behind a text that ends with a newline.
- `Lexeme.getLast?_drop_of_token`: a token leaves the newline at the end of its text.
-/

namespace KconfigLang

/-- Of some lines the first with text, if there is one, is not indented. -/
def AtMargin (lines : List (List Char)) : Prop :=
  ∀ first, lines.find? (!Text.isBlank ·) = some first → HelpBlock.indentation first = 0

/-- A text is blank, or its first line that is not blank starts in the first column. -/
def StartsAtMargin (cs : List Char) : Prop :=
  AtMargin (Text.splitOn '\n' cs)

/-- A text is empty or ends with a newline. -/
def EndsLine (cs : List Char) : Prop :=
  cs = [] ∨ cs.getLast? = some '\n'

theorem EndsLine.suffix {cs ds : List Char} (h : EndsLine cs) (hsuffix : ds <:+ cs) : EndsLine ds := by
  obtain ⟨before, rfl⟩ := hsuffix
  cases ds with
  | nil => exact .inl rfl
  | cons d ds =>
    rcases h with hnil | hlast
    · exact absurd (List.append_eq_nil_iff.mp hnil).2 (List.cons_ne_nil _ _)
    · rw [List.getLast?_append_of_ne_nil _ (List.cons_ne_nil _ _)] at hlast
      exact .inr hlast

/-- Where a run of characters ends does not depend on what comes behind its end. -/
theorem takeWhile_append_of_mem {p : Char → Bool} {c : Char} {cs : List Char} (h : c ∈ cs) (hc : p c = false)
    (more : List Char) : (cs ++ more).takeWhile p = cs.takeWhile p := by
  rw [List.takeWhile_append, if_neg]
  intro hlength
  have hall : cs.takeWhile p = cs := (List.takeWhile_prefix p).eq_of_length hlength
  exact absurd (List.takeWhile_eq_self_iff.mp hall c h) (Bool.eq_false_iff.mp hc)

/-- A run of characters other than newlines ends before a newline. -/
theorem takeWhile_newline {p : Char → Bool} (hp : p '\n' = false) (cs more : List Char) :
    (cs ++ '\n' :: more).takeWhile p = cs.takeWhile p := by
  rw [List.takeWhile_append, List.takeWhile_cons_of_neg (Bool.eq_false_iff.mp hp)]
  split
  · rename_i hlength
    rw [List.append_nil, (List.takeWhile_prefix p).eq_of_length hlength]
  · rfl

/-- A word without newlines does not reach over a newline. -/
theorem prefix_newline_iff {w : List Char} (hw : '\n' ∉ w) (cs more : List Char) :
    w <+: cs ++ '\n' :: more ↔ w <+: cs := by
  constructor
  · intro hprefix
    rcases List.prefix_or_prefix_of_prefix hprefix (List.prefix_append cs _) with hshort | ⟨ds, rfl⟩
    · exact hshort
    · rw [List.prefix_append_right_inj] at hprefix
      cases ds with
      | nil => rw [List.append_nil]
      | cons d ds =>
        obtain ⟨rfl, -⟩ := List.cons_prefix_cons.mp hprefix
        exact absurd (List.mem_append_right cs List.mem_cons_self) hw
  · intro hprefix
    exact hprefix.trans (List.prefix_append cs _)

/-- What does not depend on the lines behind a newline is the same in a text that goes on behind its first
newline. -/
theorem append_eq_of_newline {α : Type} {f : List Char → α}
    (hf : ∀ cs more, f (cs ++ '\n' :: more) = f cs) {cs : List Char} (h : '\n' ∈ cs) (more : List Char) :
    f (cs ++ more) = f cs := by
  obtain ⟨line, rest, rfl⟩ := List.append_of_mem h
  rw [List.append_assoc, List.cons_append, hf, hf]

/-! ## Help blocks -/

/-- The lines of a text that ends with a newline, and of some lines behind it. -/
theorem splitOn_append {cs : List Char} (h : EndsLine cs) :
    ∃ lines, ∀ more, Text.splitOn '\n' (cs ++ more) = lines ++ Text.splitOn '\n' more := by
  induction cs using List.reverseRecOn with
  | nil => exact ⟨[], fun _ => rfl⟩
  | append_singleton cs c _ =>
    obtain rfl : c = '\n' := by simpa [EndsLine] using h
    refine ⟨Text.splitOn '\n' cs, fun more => ?_⟩
    rw [List.append_assoc, List.singleton_append]
    exact List.splitOnP_append_cons _ _ rfl

namespace HelpBlock

variable {lines more : List (List Char)}

/-- Of lines at the margin a body takes blank ones only. -/
theorem isBlank_of_mem_takeWhile {base : Nat} (hbase : base ≠ 0) (hmore : AtMargin more) :
    ∀ line ∈ more.takeWhile (fun line => Text.isBlank line || base ≤ indentation line),
      Text.isBlank line = true := by
  induction more with
  | nil => exact List.forall_mem_nil _
  | cons line more ih =>
    by_cases hblank : Text.isBlank line = true
    · have htail : AtMargin more := fun first hfirst =>
        hmore first (by rw [List.find?_cons_of_neg (by simp [hblank]), hfirst])
      rw [List.takeWhile_cons_of_pos (by simp [hblank])]
      exact List.forall_mem_cons.mpr ⟨hblank, ih htail⟩
    · have hmargin : indentation line = 0 :=
        hmore line (List.find?_cons_of_pos (by simpa using hblank))
      rw [List.takeWhile_cons_of_neg (by simp [hblank, hmargin, hbase])]
      exact List.forall_mem_nil _

/-- No line behind a body belongs to it if the first with text is at the margin. -/
theorem bodyLines_append {base : Nat} (hbase : base ≠ 0) (hmore : AtMargin more) :
    bodyLines base (lines ++ more) = bodyLines base lines := by
  unfold bodyLines
  rw [List.takeWhile_append]
  split
  · rename_i hlength
    rw [(List.takeWhile_prefix _).eq_of_length hlength]
    exact dropBlankEnd_append (isBlank_of_mem_takeWhile hbase hmore)
  · rfl

theorem linesOf_append (hmore : AtMargin more) : linesOf (lines ++ more) = linesOf lines := by
  unfold linesOf
  rw [List.find?_append]
  cases lines.find? (!Text.isBlank ·) with
  | some first =>
    by_cases hbase : indentation first = 0
    · simp [hbase]
    · simp [hbase, bodyLines_append hbase hmore]
  | none =>
    -- Without text before them the lines behind would have to be the body themselves.
    cases hfind : more.find? (!Text.isBlank ·) with
    | none => rfl
    | some first => simp [hmore first hfind]

theorem textOf_append (hmore : AtMargin more) : textOf (lines ++ more) = textOf lines := by
  unfold textOf
  rw [List.find?_append]
  cases lines.find? (!Text.isBlank ·) with
  | some first =>
    by_cases hbase : indentation first = 0
    · simp [hbase]
    · simp [hbase, bodyLines_append hbase hmore]
  | none =>
    cases hfind : more.find? (!Text.isBlank ·) with
    | none => rfl
    | some first => simp [hmore first hfind]

theorem atMargin_blank : AtMargin [[]] :=
  fun _ h => absurd h (Option.some_ne_none _).symm

/-- A help block in a text that ends with a newline takes nothing of a text at the margin behind it. -/
theorem read_append {rest : List Char} (hrest : rest.getLast? = some '\n') {more : List Char}
    (hmore : StartsAtMargin more) : read (rest ++ more) = read rest := by
  have hnewline : '\n' ∈ rest := List.mem_of_getLast? hrest
  obtain ⟨keywordLine, cs, rfl, hline⟩ := List.eq_append_cons_of_mem hnewline
  have hcs : EndsLine cs := EndsLine.suffix (.inr hrest) ⟨keywordLine ++ ['\n'], by simp⟩
  obtain ⟨lines, hlines⟩ := splitOn_append hcs
  have hself := hlines []
  rw [List.append_nil] at hself
  rw [List.append_assoc, List.cons_append, read_behind hline, read_behind hline, hlines, hself,
    linesOf_append hmore, textOf_append hmore]
  have hblank : AtMargin (Text.splitOn '\n' []) := atMargin_blank
  rw [linesOf_append hblank, textOf_append hblank]

/-- A text that starts with a character other than white space starts at the margin. -/
theorem startsAtMargin_of_not_white {c : Char} (hc : Text.isWhiteSpace c = false) (cs : List Char) :
    StartsAtMargin (c :: cs) := by
  obtain ⟨line, lines, hlines⟩ := splitOn_of_not_white hc cs
  intro first hfirst
  rw [hlines, List.find?_cons_of_pos (by simp [isBlank_cons_of_not_white hc])] at hfirst
  rw [← Option.some.inj hfirst]
  exact indentation_of_not_white hc line

/-- A help block leaves the newline at the end of its text. -/
theorem getLast?_drop_read {rest : List Char} (h : rest.getLast? = some '\n') :
    (rest.drop (read rest).extent).getLast? = some '\n' := by
  obtain ⟨taken, more, hsplit, hlength, -⟩ := read_extent rest
  have hle : (read rest).extent ≤ rest.length := by
    rw [← hlength, congrArg List.length hsplit, List.length_append]
    exact Nat.le_add_right _ _
  -- Were it taken, a letter behind it would stand at the end of a line.
  have hne : (read rest).extent ≠ rest.length := by
    intro heq
    obtain ⟨taken', more', hsplit', hlength', hend⟩ := read_extent (rest ++ ['x'])
    rw [read_append h (startsAtMargin_of_not_white (by decide) []), heq] at hlength'
    obtain ⟨-, rfl⟩ := List.append_inj hsplit' hlength'.symm
    exact absurd (hend 'x' rfl) (by decide)
  rw [List.getLast?_drop, if_neg (by omega), h]

end HelpBlock

/-! ## String literals -/

namespace Literal

theorem group?_newline (cs more : List Char) : group? (cs ++ '\n' :: more) = group? cs := by
  have hiff (digits : List Char) : group? (cs ++ '\n' :: more) = some digits ↔ group? cs = some digits := by
    rw [group?_eq_some_iff, group?_eq_some_iff]
    refine and_congr_right fun _ => and_congr_right fun hdigits => ?_
    exact prefix_newline_iff (not_mem_groupText hdigits).2 cs more
  exact Option.ext hiff

/-- A literal ends on its line or not at all. -/
theorem literalLength?_newline (cs more : List Char) :
    literalLength? (cs ++ '\n' :: more) = literalLength? cs := by
  fun_induction literalLength? cs with
  | case1 =>
    rw [List.nil_append, literalLength?] <;> simp
  -- two quotes
  | case2 cs n hn ih =>
    show literalLength? ('"' :: '"' :: (cs ++ '\n' :: more)) = _
    rw [literalLength?, ih, hn]
  | case3 cs hn ih =>
    show literalLength? ('"' :: '"' :: (cs ++ '\n' :: more)) = _
    rw [literalLength?, ih, hn]
  -- a quote that no other one follows
  | case4 cs hquote =>
    refine literalLength?_of_closed fun ds heq => ?_
    cases cs with
    | nil => exact absurd (List.cons.inj heq).1 (by decide)
    | cons c cs => exact hquote cs (by rw [(List.cons.inj heq).1])
  -- the end of the line
  | case5 cs _ _ =>
    show literalLength? ('\n' :: (cs ++ '\n' :: more)) = none
    rw [literalLength?] <;> simp
  -- a group
  | case6 c cs _ _ _ digits hgroup n hn ih =>
    obtain ⟨-, -, rest, hsplit⟩ := group?_eq_some_iff.mp hgroup
    have hdrop : (c :: cs).drop (groupLength digits) = rest := by
      rw [← hsplit, List.drop_left' (length_groupText digits)]
    rw [hdrop] at ih hn
    have hgroup' := (group?_newline (c :: cs) more).trans hgroup
    rw [← hsplit, List.append_assoc] at hgroup' ⊢
    rw [literalLength?_groupText hgroup', ih, hn]
  | case7 c cs _ _ _ digits hgroup hn ih =>
    obtain ⟨-, -, rest, hsplit⟩ := group?_eq_some_iff.mp hgroup
    have hdrop : (c :: cs).drop (groupLength digits) = rest := by
      rw [← hsplit, List.drop_left' (length_groupText digits)]
    rw [hdrop] at ih hn
    have hgroup' := (group?_newline (c :: cs) more).trans hgroup
    rw [← hsplit, List.append_assoc] at hgroup' ⊢
    rw [literalLength?_groupText hgroup', ih, hn]
  | case8 c cs _ hquote hline hgroup ih =>
    have hgroup' := (group?_newline (c :: cs) more).trans hgroup
    rw [List.cons_append] at hgroup' ⊢
    rw [literalLength?_of_group_eq_none hquote hline hgroup', ih]

end Literal

/-! ## Lexemes -/

namespace Lexeme

theorem number_newline (c : Char) (cs more : List Char) : number c (cs ++ '\n' :: more) = number c cs := by
  have hdigits := takeWhile_newline (p := Char.isDigit) (by decide) cs more
  by_cases hhex : ∃ ds, c = '0' ∧ cs = 'x' :: ds ∧ ds.takeWhile Text.isHexDigit ≠ []
  · obtain ⟨ds, rfl, rfl, hds⟩ := hhex
    have hsame := takeWhile_newline (p := Text.isHexDigit) (by decide) ds more
    rw [List.cons_append, number_hex hds, number_hex (by rwa [hsame]), hsame]
  · have hnone : ∀ ds, c :: cs = '0' :: 'x' :: ds → ds.takeWhile Text.isHexDigit = [] := by
      rintro ds ⟨⟩
      exact not_not.mp fun hds => hhex ⟨ds, rfl, rfl, hds⟩
    have hnone' : ∀ ds, c :: (cs ++ '\n' :: more) = '0' :: 'x' :: ds →
        ds.takeWhile Text.isHexDigit = [] := by
      intro ds heq
      cases cs with
      | nil => exact absurd (List.cons.inj (List.cons.inj heq).2).1 (by decide)
      | cons d es =>
        obtain ⟨rfl, htail⟩ := List.cons.inj heq
        obtain ⟨rfl, rfl⟩ := List.cons.inj htail
        exact (takeWhile_newline (by decide) es more).trans (hnone es rfl)
    rw [number_of_no_hexDigits hnone', number_of_no_hexDigits hnone, hdigits]

theorem string_newline (cs more : List Char) : string (cs ++ '\n' :: more) = string cs := by
  unfold string
  rw [Literal.literalLength?_newline]
  cases hlength : Literal.literalLength? cs with
  | none => rw [takeWhile_newline (by decide)]
  | some n =>
    have hle := (Literal.literalLength?_take_append hlength).1
    simp only [List.take_append_of_le_length hle]

theorem mark_newline (c : Char) (cs more : List Char) : mark c (cs ++ '\n' :: more) = mark c cs := by
  cases cs with
  | nil => exact (mark_cons c '\n' more).trans (mark_break c (.inl rfl))
  | cons d ds => exact (mark_cons c d _).trans (mark_cons c d ds).symm

theorem commonLead_newline {w : List Char} (hw : '\n' ∉ w) (cs more : List Char) :
    Text.commonLead w (cs ++ '\n' :: more) = Text.commonLead w cs := by
  induction w generalizing cs with
  | nil => rw [Text.commonLead, Text.commonLead] <;> simp
  | cons d w ih =>
    rw [List.mem_cons, not_or] at hw
    cases cs with
    | nil =>
      rw [List.nil_append, Text.commonLead, if_neg (Ne.symm hw.1), Text.commonLead]
      simp
    | cons c cs => rw [List.cons_append, Text.commonLead, Text.commonLead, ih hw.2]

theorem find?_dashedHelps_newline (cs more : List Char) :
    dashedHelps.find? (·.isPrefixOf (cs ++ '\n' :: more)) = dashedHelps.find? (·.isPrefixOf cs) := by
  refine List.find?_congr fun w hw => ?_
  rw [Bool.eq_iff_iff, List.isPrefixOf_iff_prefix, List.isPrefixOf_iff_prefix]
  exact prefix_newline_iff (not_mem_dashedHelps w hw).2 cs more

theorem map_commonLead_newline (cs more : List Char) :
    dashedHelps.map (Text.commonLead · (cs ++ '\n' :: more)) = dashedHelps.map (Text.commonLead · cs) :=
  List.map_congr_left fun w hw => commonLead_newline (not_mem_dashedHelps w hw).2 cs more

/-- A token other than a help block ends on its line, whatever lines stand behind it. -/
theorem read_newline {c : Char} {cs : List Char} {t : Token} {extra : Nat}
    (h : read c cs = ⟨.token t, extra⟩) (ht : ∀ body, t ≠ .help body) (more : List Char) :
    read c (cs ++ '\n' :: more) = ⟨.token t, extra⟩ := by
  have hhelp {n : Nat} {ds : List Char} : help n ds ≠ ⟨.token t, extra⟩ :=
    fun heq => ht _ (LexemeKind.token.inj (congrArg kind heq)).symm
  unfold read at h ⊢
  split at h
  · cases h
  rename_i hspace
  rw [if_neg hspace]
  split at h
  · unfold backslash at h
    split at h <;> cases h
  rename_i hbackslash
  rw [if_neg hbackslash]
  split at h
  · cases h
  rename_i hcomment
  rw [if_neg hcomment, number_newline, string_newline, mark_newline]
  split at h
  · rename_i hletter
    rw [if_pos hletter]
    unfold word at h ⊢
    rw [takeWhile_newline (by decide)]
    simp only at h ⊢
    split at h
    · exact absurd h hhelp
    · rename_i hword
      rw [if_neg hword]
      exact h
  rename_i hletter
  rw [if_neg hletter]
  split at h
  · rename_i hdigit
    rw [if_pos hdigit]
    exact h
  rename_i hdigit
  rw [if_neg hdigit]
  split at h
  · rename_i hdash
    rw [if_pos hdash]
    unfold dash at h ⊢
    rw [takeWhile_newline (by decide)]
    simp only at h ⊢
    split at h
    · rename_i hdigits
      rw [if_pos hdigits]
      exact h
    · split at h
      · exact absurd h hhelp
      · cases h
  · rename_i hdash
    rw [if_neg hdash]
    exact h

/-! ### Texts that end with a newline -/

variable {cs more : List Char}

/-- A help keyword on a line of a text that ends with a newline. -/
theorem help_append {n : Nat} (h : (cs.drop n).getLast? = some '\n') (hmore : StartsAtMargin more) :
    help n (cs ++ more) = help n cs := by
  have hle : n ≤ cs.length := by
    by_contra hlt
    rw [List.drop_eq_nil_of_le (by omega)] at h
    exact absurd h (Option.some_ne_none _).symm
  rw [help, help, List.drop_append_of_le_length hle, HelpBlock.read_append h hmore]

/-- What stands behind characters that are no newline goes on to the end of the text. -/
theorem getLast?_drop {n : Nat} (h : cs.getLast? = some '\n') (htake : '\n' ∉ cs.take n) :
    (cs.drop n).getLast? = some '\n' := by
  rw [List.getLast?_drop, if_neg, h]
  intro hle
  rw [List.take_of_length_le hle] at htake
  exact htake (List.mem_of_getLast? h)

theorem not_mem_take_takeWhile {p : Char → Bool} (hp : p '\n' = false) (cs : List Char) :
    '\n' ∉ cs.take (cs.takeWhile p).length := by
  rw [take_length_takeWhile]
  intro hmem
  exact absurd (List.mem_takeWhile_imp hmem) (Bool.eq_false_iff.mp hp)

variable (h : cs.getLast? = some '\n') (hmore : StartsAtMargin more)
include h

omit h in
/-- Two characters behind a backslash decide how it is read. -/
theorem backslash_cons (c d : Char) (cs : List Char) : backslash (c :: d :: cs) = backslash [c, d] := by
  by_cases hc : c = '\r'
  · subst hc
    by_cases hd : d = '\n'
    · subst hd
      rfl
    · simp [backslash, hd]
  · unfold backslash
    split <;> simp_all

theorem backslash_append : backslash (cs ++ more) = backslash cs := by
  obtain ⟨c, ds, rfl⟩ := List.exists_cons_of_ne_nil (List.ne_nil_of_mem (List.mem_of_getLast? h))
  cases ds with
  | nil =>
    obtain rfl : c = '\n' := by simpa using h
    rfl
  | cons d ds =>
    rw [List.cons_append, List.cons_append, backslash_cons, backslash_cons c d ds]

include hmore in
theorem word_append (c : Char) : word c (cs ++ more) = word c cs := by
  have hword := takeWhile_append_of_mem (p := isWordChar) (List.mem_of_getLast? h) (by decide) more
  unfold word
  simp only [hword]
  split
  · exact help_append (getLast?_drop h (not_mem_take_takeWhile (by decide) cs)) hmore
  · rfl

theorem number_append (c : Char) : number c (cs ++ more) = number c cs :=
  append_eq_of_newline (number_newline c) (List.mem_of_getLast? h) more

include hmore in
theorem dash_append : dash (cs ++ more) = dash cs := by
  have hnewline := List.mem_of_getLast? h
  have hdigits := append_eq_of_newline (takeWhile_newline (p := Char.isDigit) (by decide)) hnewline more
  have hfind := append_eq_of_newline (f := fun cs => dashedHelps.find? (·.isPrefixOf cs))
    find?_dashedHelps_newline hnewline more
  have hlead := append_eq_of_newline (f := fun cs => dashedHelps.map (Text.commonLead · cs))
    map_commonLead_newline hnewline more
  unfold dash
  simp only [hdigits, hfind, hlead]
  split
  · rfl
  · split
    · rename_i keyword hkeyword
      exact help_append (getLast?_drop h (not_mem_take_dashedHelp hkeyword)) hmore
    · rfl

theorem string_append : string (cs ++ more) = string cs :=
  append_eq_of_newline string_newline (List.mem_of_getLast? h) more

theorem mark_append (c : Char) : mark c (cs ++ more) = mark c cs :=
  append_eq_of_newline (mark_newline c) (List.mem_of_getLast? h) more

include hmore in
/-- A lexeme other than white space is the same in a text that ends with a newline and in the text that goes on
with a line at the margin. -/
theorem read_append {c : Char} (hc : isSpace c = false) : read c (cs ++ more) = read c cs := by
  unfold read
  rw [if_neg (Bool.eq_false_iff.mp hc), if_neg (Bool.eq_false_iff.mp hc), backslash_append h,
    takeWhile_append_of_mem (List.mem_of_getLast? h) (by decide) more, word_append h hmore, number_append h,
    dash_append h hmore, string_append h, mark_append h]

/-! ### What lexemes leave -/

omit h in
theorem not_mem_take_number (c : Char) (cs : List Char) : '\n' ∉ cs.take (number c cs).extra := by
  unfold number
  simp only
  split <;> split
  · rw [decimal_extra]
    exact not_mem_take_takeWhile (by decide) _
  · rw [hexadecimal_extra, List.take_succ_cons]
    exact List.not_mem_cons_of_ne_of_not_mem (by decide) (not_mem_take_takeWhile (by decide) _)
  · rw [decimal_extra]
    exact not_mem_take_takeWhile (by decide) _
  · rename_i hempty
    exact absurd rfl hempty

theorem getLast?_drop_help {n extra : Nat} {t : Token} (htake : '\n' ∉ cs.take n)
    (hhelp : help n cs = ⟨.token t, extra⟩) : (cs.drop extra).getLast? = some '\n' := by
  obtain ⟨-, rfl⟩ := Lexeme.mk.inj hhelp
  rw [← List.drop_drop]
  exact HelpBlock.getLast?_drop_read (getLast?_drop h htake)

/-- A token leaves the newline at the end of its text. -/
theorem getLast?_drop_of_token {c : Char} {t : Token} {extra : Nat} (hread : read c cs = ⟨.token t, extra⟩) :
    (cs.drop extra).getLast? = some '\n' := by
  rcases read_token_cases hread with ⟨-, hread⟩ | ⟨-, hread⟩ | ⟨-, hread⟩ | ⟨-, hread⟩ | hread
  · unfold word at hread
    simp only at hread
    split at hread
    · exact getLast?_drop_help h (not_mem_take_takeWhile (by decide) cs) hread
    · obtain ⟨-, rfl⟩ := Lexeme.mk.inj hread
      exact getLast?_drop h (not_mem_take_takeWhile (by decide) cs)
  · obtain rfl : (number c cs).extra = extra := congrArg Lexeme.extra hread
    exact getLast?_drop h (not_mem_take_number c cs)
  · unfold dash at hread
    simp only at hread
    split at hread
    · obtain rfl : (cs.takeWhile Char.isDigit).length = extra :=
        (decimal_extra _ _).symm.trans (congrArg Lexeme.extra hread)
      exact getLast?_drop h (not_mem_take_takeWhile (by decide) cs)
    · split at hread
      · rename_i keyword hkeyword
        refine getLast?_drop_help h ?_ hread
        exact not_mem_take_dashedHelp hkeyword
      · cases hread
  · unfold string at hread
    split at hread
    · cases hread
    · rename_i n hlength
      simp only at hread
      split at hread
      · obtain ⟨-, rfl⟩ := Lexeme.mk.inj hread
        exact getLast?_drop h (Literal.closes_of_literalLength? hlength).not_mem_newline
      · cases hread
  · obtain rfl : (mark c cs).extra = extra := congrArg Lexeme.extra hread
    exact getLast?_drop h (not_mem_take_mark c cs)

end Lexeme

end KconfigLang
