import KconfigLang.Proofs.Text.Position
import KconfigLang.Report
import Mathlib.Data.List.Basic

/-!
# Rows on a terminal

A terminal ends its rows at more characters than newlines, but not at a carriage return in front of a newline and not
at the last character of a text. So it sees another text: the one with newlines where rows end, and a place on a
terminal is the place that is counted in that text.

- `endsRow`: the characters behind which a row ends.
- `Text.asRows`: the characters before a place as a terminal sees them.
- `linePlace_append`: the row and the column of a place are counted in them.
- `Text.RowsAtNewlines`: among the characters before a place the rows end at the newlines.
- `Text.counts_asRows_iff`: then, and only then, the place is the same as in the text.
-/

namespace KconfigLang

/-- Whether a row ends at a character in front of `rest`. -/
def endsRow (c : Char) (rest : List Char) : Bool :=
  isLineEnd c && !rest.isEmpty && !(c == '\r' && rest.head? == some '\n')

theorem endsRow_iff {c : Char} {rest : List Char} :
    endsRow c rest = true ↔ isLineEnd c = true ∧ rest ≠ [] ∧ ¬ (c = '\r' ∧ rest.head? = some '\n') := by
  simp [endsRow, and_assoc, Decidable.imp_iff_not_or]

theorem endsRow_newline {rest : List Char} : endsRow '\n' rest = true ↔ rest ≠ [] := by
  rw [endsRow_iff]
  exact ⟨fun h => h.2.1, fun h => ⟨by decide, h, fun hreturn => absurd hreturn.1 (by decide)⟩⟩

/-! ## Lines of a terminal -/

theorem linesFrom_singleton (start : Nat) (c : Char) : linesFrom start [c] = [⟨start, [c]⟩] := by
  have halone : ∀ rest, c = '\r' → [] = '\n' :: rest → False := fun _ _ h => by cases h
  rw [linesFrom.eq_3 _ _ _ halone, linesFrom]
  split <;> rfl

theorem linesFrom_ne_nil (start : Nat) {cs : List Char} (hcs : cs ≠ []) : linesFrom start cs ≠ [] := by
  unfold linesFrom
  split
  · exact absurd rfl hcs
  · exact List.cons_ne_nil _ _
  · split
    · exact List.cons_ne_nil _ _
    · split <;> exact List.cons_ne_nil _ _

/-- A character ends a row of its own, or it is put in front of the first line behind it. -/
theorem linesFrom_cons (start : Nat) (c : Char) {cs : List Char} (hcs : cs ≠ []) :
    ∃ line more, linesFrom (start + c.utf8Size) cs = line :: more ∧
      linesFrom start (c :: cs) =
        if endsRow c cs then ⟨start, [c]⟩ :: line :: more else ⟨start, c :: line.chars⟩ :: more := by
  by_cases hpair : ∃ rest, c = '\r' ∧ cs = '\n' :: rest
  -- The newline ends the row of the carriage return in front of it.
  · obtain ⟨rest, rfl, rfl⟩ := hpair
    refine ⟨⟨start + 1, ['\n']⟩, linesFrom (start + 2) rest, ?_, ?_⟩
    · rw [linesFrom.eq_3 _ _ _ (fun _ h _ => absurd h (by decide)), if_pos (by decide)]
      rfl
    · rw [linesFrom]
      rfl
  · obtain ⟨line, more, hmore⟩ := List.exists_cons_of_ne_nil (linesFrom_ne_nil (start + c.utf8Size) hcs)
    refine ⟨line, more, hmore, ?_⟩
    have hends : endsRow c cs = isLineEnd c := by
      refine Bool.eq_iff_iff.mpr (endsRow_iff.trans ⟨fun h => h.1, fun h => ⟨h, hcs, fun ⟨hc, hhead⟩ => ?_⟩⟩)
      obtain ⟨rest, rfl⟩ := List.head?_eq_some_iff.mp hhead
      exact hpair ⟨rest, hc, rfl⟩
    rw [linesFrom.eq_3 _ _ _ (fun rest hc h => hpair ⟨rest, hc, h⟩), hends, hmore]

/-- The first line of some characters starts where they do, and the others later. -/
theorem linesFrom_starts (start : Nat) {cs : List Char} (hcs : cs ≠ []) :
    ∃ chars more, linesFrom start cs = ⟨start, chars⟩ :: more ∧ ∀ line ∈ more, start < line.start := by
  induction cs generalizing start with
  | nil => exact absurd rfl hcs
  | cons c cs ih =>
    cases cs with
    | nil => exact ⟨[c], [], linesFrom_singleton start c, List.forall_mem_nil _⟩
    | cons d ds =>
      have hlt : start < start + c.utf8Size := Nat.lt_add_of_pos_right (Char.utf8Size_pos c)
      obtain ⟨line, more, hmore, hcons⟩ := linesFrom_cons start c (List.cons_ne_nil d ds)
      obtain ⟨chars, more', hstarts, hlate⟩ := ih (start + c.utf8Size) (List.cons_ne_nil d ds)
      obtain ⟨rfl, rfl⟩ := List.cons.inj (hmore.symm.trans hstarts)
      have hlater : ∀ line ∈ more, start < line.start := fun line hline => hlt.trans (hlate line hline)
      rw [hcons]
      split
      · exact ⟨_, _, rfl, List.forall_mem_cons.mpr ⟨hlt, hlater⟩⟩
      · exact ⟨_, _, rfl, hlater⟩

/-! ## Rows before a place -/

namespace Text

/-- The characters before a place as a terminal sees them, where `after` follows: newlines where rows end and blanks
elsewhere. -/
def asRows : List Char → List Char → List Char
  | [], _ => []
  | c :: before, after => (if endsRow c (before ++ after) then '\n' else ' ') :: asRows before after

theorem length_asRows (before after : List Char) : (asRows before after).length = before.length := by
  induction before with
  | nil => rfl
  | cons c before ih => rw [asRows, List.length_cons, List.length_cons, ih]

end Text

theorem charsBefore_self (start : Nat) (cs : List Char) : charsBefore start start cs = 0 := by
  cases cs with
  | nil => rfl
  | cons c cs => exact if_neg (Nat.lt_irrefl start)

theorem charsBefore_cons {offset start : Nat} (h : start < offset) (c : Char) (cs : List Char) :
    charsBefore offset start (c :: cs) = charsBefore offset (start + c.utf8Size) cs + 1 :=
  if_pos h

open Text in
/-- The lines of a terminal up to a place, and the column in the last of them. -/
theorem linesFrom_upTo (start : Nat) (before after : List Char) (h : before ++ after ≠ []) :
    (Line.upTo (start + byteLength before) (linesFrom start (before ++ after))).length =
        lineAt (asRows before after) ∧
      ((Line.upTo (start + byteLength before) (linesFrom start (before ++ after))).getLast?.map fun line =>
        charsBefore (start + byteLength before) line.start line.chars + 1) =
          some (columnAt (asRows before after)) := by
  induction before generalizing start with
  | nil =>
    obtain ⟨chars, more, hlines, hmore⟩ := linesFrom_starts start h
    have hupTo : Line.upTo start (linesFrom start after) = [⟨start, chars⟩] := by
      rw [show linesFrom start after = _ from hlines, Line.upTo_cons (Nat.le_refl start), Line.upTo_eq_nil hmore]
    rw [byteLength_nil, Nat.add_zero, List.nil_append, hupTo]
    exact ⟨rfl, congrArg some (congrArg (· + 1) (charsBefore_self start chars))⟩
  | cons c before ih =>
    have hshift : start + byteLength (c :: before) = start + c.utf8Size + byteLength before := by
      rw [byteLength_cons, Nat.add_assoc]
    have hlt : start < start + c.utf8Size + byteLength before :=
      Nat.lt_add_right _ (Nat.lt_add_of_pos_right (Char.utf8Size_pos c))
    rw [hshift, List.cons_append, asRows]
    cases hrest : before ++ after with
    -- The last character of the text ends no row.
    | nil =>
      obtain ⟨rfl, rfl⟩ := List.append_eq_nil_iff.mp hrest
      rw [linesFrom_singleton, Line.upTo_cons hlt.le, if_neg (by simp [endsRow])]
      exact ⟨rfl, congrArg some (congrArg (· + 1) (charsBefore_cons hlt c []))⟩
    | cons d ds =>
      obtain ⟨hcount, hcolumn⟩ := ih (start + c.utf8Size) (hrest ▸ List.cons_ne_nil d ds)
      obtain ⟨line, more, hlines, hcons⟩ := linesFrom_cons start c (List.cons_ne_nil d ds)
      rw [hrest, hlines] at hcount hcolumn
      rw [hcons]
      split
      -- A row ends here, so the rows behind it are one more, and the last of them stays the last.
      · rename_i hends
        obtain ⟨line', taken, htaken⟩ :=
          List.exists_cons_of_length_pos (Nat.lt_of_lt_of_eq (Nat.succ_pos _) hcount.symm)
        rw [Line.upTo_cons hlt.le]
        rw [htaken] at hcount hcolumn ⊢
        rw [List.getLast?_cons_cons, hcolumn, columnAt_newline]
        refine ⟨?_, rfl⟩
        rw [List.length_cons, hcount, lineAt, lineAt, List.count_cons_self]
      -- The first line has one more character, which counts where the place is in that line.
      · obtain ⟨chars, more', hstarts, -⟩ := linesFrom_starts (start + c.utf8Size) (List.cons_ne_nil d ds)
        obtain ⟨rfl, rfl⟩ := List.cons.inj (hlines.symm.trans hstarts)
        have hnext : start + c.utf8Size ≤ start + c.utf8Size + byteLength before := Nat.le_add_right _ _
        rw [Line.upTo_cons hnext] at hcount hcolumn
        rw [Line.upTo_cons hlt.le]
        have hrows := Nat.succ.inj hcount
        refine ⟨?_, ?_⟩
        · rw [List.length_cons, hrows, lineAt, List.count_cons_of_ne (by decide)]
        · by_cases hmem : '\n' ∈ asRows before after
          · obtain ⟨line, taken, htaken⟩ :=
              List.exists_cons_of_length_pos (Nat.lt_of_lt_of_eq (List.count_pos_iff.mpr hmem) hrows.symm)
            rw [htaken, List.getLast?_cons_cons] at hcolumn ⊢
            rw [hcolumn, columnAt_cons_of_mem hmem]
          · have hfirst : '\n' ∉ ' ' :: asRows before after := List.not_mem_cons_of_ne_of_not_mem (by decide) hmem
            rw [List.length_eq_zero_iff.mp (hrows.trans (List.count_eq_zero.mpr hmem))] at hcolumn ⊢
            rw [columnAt_of_not_mem hmem] at hcolumn
            rw [columnAt_of_not_mem hfirst, List.length_cons]
            exact congrArg some (congrArg (· + 1) ((charsBefore_cons hlt c _).trans (Option.some.inj hcolumn)))

/-- The row and the column of a place on a terminal are counted in the text that it sees. -/
theorem linePlace_append (before after : List Char) :
    (linePlace (displayLines (before ++ after)) (Text.byteLength before)).row + 1 =
        Text.lineAt (Text.asRows before after) ∧
      (linePlace (displayLines (before ++ after)) (Text.byteLength before)).column + 1 =
        Text.columnAt (Text.asRows before after) := by
  by_cases h : before ++ after = []
  · obtain ⟨rfl, rfl⟩ := List.append_eq_nil_iff.mp h
    exact ⟨rfl, rfl⟩
  · obtain ⟨hrow, hcolumn⟩ := linesFrom_upTo 0 before after h
    rw [Nat.zero_add] at hrow hcolumn
    have hlines : displayLines (before ++ after) = linesFrom 0 (before ++ after) :=
      if_neg (by simpa using h)
    have hpos : 0 < Text.lineAt (Text.asRows before after) := Nat.succ_pos _
    obtain ⟨line, hline, hcolumn⟩ := Option.map_eq_some_iff.mp hcolumn
    rw [Line.upTo] at hrow hline
    simp only [linePlace, hlines, hrow, hline, Option.getD_some]
    exact ⟨by omega, hcolumn⟩

/-! ## Rows and newlines -/

namespace Text

/-- Among the characters before a place rows end at the newlines and nowhere else, where `after` follows. -/
def RowsAtNewlines (before after : List Char) : Prop :=
  ∀ us c vs, before = us ++ c :: vs → (endsRow c (vs ++ after) = true ↔ c = '\n')

section Counts

variable {before after : List Char} {c : Char}

theorem rowsAtNewlines_nil : RowsAtNewlines [] after := by
  intro us c vs h
  cases (List.append_eq_nil_iff.mp h.symm).2

theorem rowsAtNewlines_cons :
    RowsAtNewlines (c :: before) after ↔
      (endsRow c (before ++ after) = true ↔ c = '\n') ∧ RowsAtNewlines before after := by
  constructor
  · exact fun h => ⟨h [] c before rfl, fun us d vs hparts => h (c :: us) d vs (by rw [hparts, List.cons_append])⟩
  · rintro ⟨hc, h⟩ us d vs hparts
    rcases List.cons_eq_append_iff.mp hparts with ⟨rfl, heq⟩ | ⟨us, rfl, rfl⟩
    · obtain ⟨rfl, rfl⟩ := List.cons.inj heq
      exact hc
    · exact h us d vs rfl

theorem rowsAtNewlines_append {us vs : List Char} :
    RowsAtNewlines (us ++ vs) after ↔ RowsAtNewlines us (vs ++ after) ∧ RowsAtNewlines vs after := by
  induction us with
  | nil => exact ⟨fun h => ⟨rowsAtNewlines_nil, h⟩, fun h => h.2⟩
  | cons c us ih => rw [List.cons_append, rowsAtNewlines_cons, rowsAtNewlines_cons, ih, List.append_assoc, and_assoc]

theorem asRows_append (us vs : List Char) :
    asRows (us ++ vs) after = asRows us (vs ++ after) ++ asRows vs after := by
  induction us with
  | nil => rfl
  | cons c us ih => rw [List.cons_append, asRows, asRows, ih, List.append_assoc, List.cons_append]

/-- If rows end at the newlines, places are the same as in the text. -/
theorem RowsAtNewlines.counts (h : RowsAtNewlines before after) :
    lineAt (asRows before after) = lineAt before ∧ columnAt (asRows before after) = columnAt before := by
  induction before with
  | nil => exact ⟨rfl, rfl⟩
  | cons c before ih =>
    obtain ⟨hc, hbefore⟩ := rowsAtNewlines_cons.mp h
    obtain ⟨hline, hcolumn⟩ := ih hbefore
    have hcount : (asRows before after).count '\n' = before.count '\n' := Nat.succ.inj hline
    by_cases hnewline : c = '\n'
    · rw [asRows, if_pos (hc.mpr hnewline), hnewline, columnAt_newline, columnAt_newline, lineAt, lineAt,
        List.count_cons_self, List.count_cons_self, hcount]
      exact ⟨rfl, hcolumn⟩
    · rw [asRows, if_neg (mt hc.mp hnewline), lineAt, lineAt, List.count_cons_of_ne (by decide),
        List.count_cons_of_ne hnewline, hcount]
      refine ⟨rfl, ?_⟩
      by_cases hmem : '\n' ∈ before
      · have hseen : '\n' ∈ asRows before after := List.count_pos_iff.mp (hcount ▸ List.count_pos_iff.mpr hmem)
        rw [columnAt_cons_of_mem hseen, columnAt_cons_of_mem hmem, hcolumn]
      · have hseen : '\n' ∉ asRows before after := List.count_eq_zero.mp (hcount.trans (List.count_eq_zero.mpr hmem))
        rw [columnAt_of_not_mem (List.not_mem_cons_of_ne_of_not_mem (by decide) hseen),
          columnAt_of_not_mem (List.not_mem_cons_of_ne_of_not_mem (Ne.symm hnewline) hmem),
          List.length_cons, List.length_cons, length_asRows]

/-- Where a text goes on, rows end at its newlines at least; so if no more rows end than there are newlines, they end
nowhere else. -/
theorem count_le_count_asRows (h : after ≠ []) : before.count '\n' ≤ (asRows before after).count '\n' ∧
    ((asRows before after).count '\n' = before.count '\n' → RowsAtNewlines before after) := by
  induction before with
  | nil => exact ⟨Nat.le_refl _, fun _ => rowsAtNewlines_nil⟩
  | cons c before ih =>
    obtain ⟨hle, heq⟩ := ih
    rw [rowsAtNewlines_cons, asRows]
    by_cases hnewline : c = '\n'
    · subst hnewline
      have hends : endsRow '\n' (before ++ after) = true :=
        endsRow_newline.mpr fun hnil => h (List.append_eq_nil_iff.mp hnil).2
      rw [if_pos hends, List.count_cons_self, List.count_cons_self]
      exact ⟨Nat.succ_le_succ hle, fun hcount => ⟨⟨fun _ => rfl, fun _ => hends⟩, heq (Nat.succ.inj hcount)⟩⟩
    · rw [List.count_cons_of_ne hnewline]
      split
      · rw [List.count_cons_self]
        exact ⟨Nat.le_succ_of_le hle, fun hcount => by omega⟩
      · rename_i hends
        rw [List.count_cons_of_ne (by decide)]
        exact ⟨hle, fun hcount => ⟨⟨fun hc => absurd hc hends, fun hc => absurd hc hnewline⟩, heq hcount⟩⟩

/-- The column is one at the beginning of a line, and nowhere else behind a character. -/
theorem columnAt_concat_eq_one_iff (cs : List Char) : columnAt (cs ++ [c]) = 1 ↔ c = '\n' := by
  rw [columnAt_concat, columnAt]
  split <;> simp_all

/-- A place on a terminal is the same as in the text exactly if rows end at the newlines before it. -/
theorem counts_asRows_iff : lineAt (asRows before after) = lineAt before ∧
    columnAt (asRows before after) = columnAt before ↔ RowsAtNewlines before after := by
  refine ⟨fun ⟨hline, hcolumn⟩ => ?_, RowsAtNewlines.counts⟩
  rcases List.eq_nil_or_concat' before with rfl | ⟨us, c, rfl⟩
  · exact rowsAtNewlines_nil
  have hrows : asRows (us ++ [c]) after = asRows us (c :: after) ++ [if endsRow c after then '\n' else ' '] :=
    asRows_append us [c]
  rw [hrows] at hline hcolumn
  -- The columns tell whether a row ends at the last character, and then the rows tell the rest.
  have hlast : endsRow c after = true ↔ c = '\n' := by
    rw [← columnAt_concat_eq_one_iff us, ← hcolumn, columnAt_concat_eq_one_iff]
    split <;> simp_all
  have hcount : (asRows us (c :: after)).count '\n' = us.count '\n' := by
    have hline := Nat.succ.inj hline
    rw [List.count_append, List.count_append, List.count_singleton, List.count_singleton] at hline
    by_cases hc : c = '\n'
    · subst hc
      rw [if_pos (hlast.mpr rfl)] at hline
      exact Nat.add_right_cancel hline
    · rw [if_neg (mt hlast.mp hc)] at hline
      simpa [hc] using hline
  have hus := (count_le_count_asRows (List.cons_ne_nil c after)).2 hcount
  rw [rowsAtNewlines_append, rowsAtNewlines_cons]
  exact ⟨hus, hlast, rowsAtNewlines_nil⟩

end Counts

end Text

end KconfigLang
