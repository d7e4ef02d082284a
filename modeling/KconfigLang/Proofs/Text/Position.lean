import KconfigLang.Span
import Mathlib.Data.List.TakeWhile

/-!
# Counted positions

The line and the column of a place in a text, counted in the text before it, and what a locator says of it.

- `Text.lineAt` and `Text.columnAt`: newlines before the place, and characters since the last one.
- `Text.takeBytes?_append`: the characters before a byte offset.
- `Line.table_upTo`: the lines of a table up to a place, and the column in the last of them.
- `Locator.position_append`: a locator finds the counted position.
-/

namespace KconfigLang

namespace Text

/-- The line of the place behind some characters, counted from one. -/
def lineAt (before : List Char) : Nat :=
  before.count '\n' + 1

/-- The column of the place behind some characters, counted from one. -/
def columnAt (before : List Char) : Nat :=
  (before.reverse.takeWhile (· ≠ '\n')).length + 1

/-- The characters before a byte offset that is a boundary between characters. -/
theorem takeBytes?_append (before after : List Char) :
    takeBytes? (byteLength before) (before ++ after) = some before := by
  induction before with
  | nil => rw [byteLength_nil, takeBytes?]
  | cons c cs ih =>
    obtain ⟨n, hn⟩ : ∃ n, byteLength (c :: cs) = n + 1 :=
      Nat.exists_eq_succ_of_ne_zero (Nat.ne_of_gt (Nat.lt_add_right _ (Char.utf8Size_pos c)))
    rw [hn, List.cons_append, takeBytes?, ← hn, byteLength_cons, if_pos (Nat.le_add_right _ _),
      Nat.add_sub_cancel_left, ih]
    rfl

/-- Of two beginnings of a text the one with fewer bytes is a beginning of the other. -/
theorem prefix_of_byteLength_le {cs before more : List Char} (h : before <+: cs) (h' : more <+: cs)
    (hle : byteLength before ≤ byteLength more) : before <+: more := by
  rcases List.prefix_or_prefix_of_prefix h h' with hprefix | ⟨rest, rfl⟩
  · exact hprefix
  · cases rest with
    | nil => simp
    | cons c rest =>
      have hsize := Char.utf8Size_pos c
      simp only [byteLength_append, byteLength_cons] at hle
      omega

theorem lineAt_append (before after : List Char) : lineAt (before ++ after) = before.count '\n' + lineAt after := by
  rw [lineAt, lineAt, List.count_append, Nat.add_assoc]

/-- Behind a newline the first lines do not count. -/
theorem columnAt_cons_of_mem {cs : List Char} (h : '\n' ∈ cs) (c : Char) : columnAt (c :: cs) = columnAt cs := by
  have hlen : (cs.reverse.takeWhile (· ≠ '\n')).length ≠ cs.reverse.length := by
    intro heq
    have hall := (List.takeWhile_prefix (l := cs.reverse) (· ≠ '\n')).eq_of_length heq
    have hnot := List.takeWhile_eq_self_iff.mp hall '\n' (List.mem_reverse.mpr h)
    exact absurd hnot (by decide)
  simp only [columnAt, List.reverse_cons, List.takeWhile_append, if_neg hlen]

/-- On one line every character counts. -/
theorem columnAt_append_of_not_mem (before : List Char) {cs : List Char} (h : '\n' ∉ cs) :
    columnAt (before ++ cs) = columnAt before + cs.length := by
  have hall : ∀ c ∈ cs.reverse, decide (c ≠ '\n') = true := fun c hc => by
    simpa using ne_of_mem_of_not_mem (List.mem_reverse.mp hc) h
  rw [columnAt, List.reverse_append, List.takeWhile_append_of_pos hall, List.length_append, List.length_reverse,
    columnAt, Nat.add_comm cs.length, Nat.add_right_comm]

/-- On the first line the column is one more than the number of characters. -/
theorem columnAt_of_not_mem {cs : List Char} (h : '\n' ∉ cs) : columnAt cs = cs.length + 1 :=
  (columnAt_append_of_not_mem [] h).trans (Nat.add_comm 1 cs.length)

theorem columnAt_newline (cs : List Char) : columnAt ('\n' :: cs) = columnAt cs := by
  by_cases h : '\n' ∈ cs
  · exact columnAt_cons_of_mem h '\n'
  · rw [columnAt_of_not_mem h]
    exact (columnAt_append_of_not_mem ['\n'] h).trans (Nat.add_comm 1 cs.length)

theorem columnAt_concat (cs : List Char) (c : Char) :
    columnAt (cs ++ [c]) = if c = '\n' then 1 else columnAt cs + 1 := by
  rw [columnAt, columnAt, List.reverse_append, List.reverse_singleton, List.singleton_append, List.takeWhile_cons]
  by_cases hc : c = '\n' <;> simp [hc]

end Text

/-! ## Line tables -/

namespace Line

theorem table_ne_nil (start : Nat) (cs : List Char) : table start cs ≠ [] := by
  unfold table
  split
  · exact List.cons_ne_nil _ _
  · split
    · exact List.cons_ne_nil _ _
    · split <;> exact List.cons_ne_nil _ _

/-- A line in front of a table with one more character. -/
theorem table_cons {c : Char} (hc : c ≠ '\n') (start : Nat) (cs : List Char) :
    ∃ line more, table (start + c.utf8Size) cs = line :: more ∧
      table start (c :: cs) = ⟨start, c :: line.chars⟩ :: more := by
  obtain ⟨line, more, htable⟩ := List.exists_cons_of_ne_nil (table_ne_nil (start + c.utf8Size) cs)
  refine ⟨line, more, htable, ?_⟩
  rw [table, if_neg hc, htable]

/-- The first line of a table starts where the text does, and the others later. -/
theorem table_starts (start : Nat) (cs : List Char) :
    ∃ chars more, table start cs = ⟨start, chars⟩ :: more ∧ ∀ line ∈ more, start < line.start := by
  induction cs generalizing start with
  | nil => exact ⟨[], [], rfl, List.forall_mem_nil _⟩
  | cons c cs ih =>
    by_cases hc : c = '\n'
    · obtain ⟨chars, more, htable, hmore⟩ := ih (start + 1)
      refine ⟨['\n'], table (start + 1) cs, by rw [table, if_pos hc], ?_⟩
      rw [htable]
      exact List.forall_mem_cons.mpr ⟨Nat.lt_succ_self _, fun line hline => by have := hmore line hline; omega⟩
    · obtain ⟨line, more, htable, hcons⟩ := table_cons hc start cs
      obtain ⟨chars, more', htable', hmore⟩ := ih (start + c.utf8Size)
      obtain ⟨rfl, rfl⟩ := List.cons.inj (htable.symm.trans htable')
      exact ⟨_, more, hcons, fun line hline => Nat.lt_of_le_of_lt (Nat.le_add_right _ _) (hmore line hline)⟩

/-- A table starts with the characters before the first newline. -/
theorem table_append_of_not_mem {before : List Char} (h : '\n' ∉ before) (start : Nat) (after : List Char) :
    ∃ chars more, table start (before ++ after) = ⟨start, before ++ chars⟩ :: more := by
  induction before generalizing start with
  | nil =>
    obtain ⟨chars, more, htable, -⟩ := table_starts start after
    exact ⟨chars, more, htable⟩
  | cons c before ih =>
    rw [List.mem_cons, not_or] at h
    obtain ⟨line, more, htable, hcons⟩ := table_cons (Ne.symm h.1) start (before ++ after)
    obtain ⟨chars, more', htable'⟩ := ih h.2 (start + c.utf8Size)
    obtain ⟨rfl, rfl⟩ := List.cons.inj (htable.symm.trans htable')
    exact ⟨chars, more, hcons⟩

/-- The lines of a table that start at a byte offset or before it. -/
def upTo (offset : Nat) (lines : List Line) : List Line :=
  lines.takeWhile (·.start ≤ offset)

theorem upTo_cons {line : Line} {offset : Nat} (h : line.start ≤ offset) (more : List Line) :
    upTo offset (line :: more) = line :: upTo offset more :=
  List.takeWhile_cons_of_pos (decide_eq_true h)

theorem upTo_eq_nil {offset : Nat} {lines : List Line} (h : ∀ line ∈ lines, offset < line.start) :
    upTo offset lines = [] := by
  cases lines with
  | nil => rfl
  | cons line more => exact List.takeWhile_cons_of_neg (by simpa using h line List.mem_cons_self)

/-- On the first line of a text the column counts the characters. -/
theorem column_of_not_mem {before : List Char} (h : '\n' ∉ before) (start : Nat) (chars : List Char) :
    column ⟨start, before ++ chars⟩ (start + Text.byteLength before) = Text.columnAt before := by
  rw [column, Nat.add_sub_cancel_left, Text.takeBytes?_append, Text.columnAt_of_not_mem h]

/-- The lines up to a place, and the column in the last of them. -/
theorem table_upTo (start : Nat) (before after : List Char) :
    (upTo (start + Text.byteLength before) (table start (before ++ after))).length = Text.lineAt before ∧
      (upTo (start + Text.byteLength before) (table start (before ++ after))).getLast?.map
        (·.column (start + Text.byteLength before)) = some (Text.columnAt before) := by
  induction before generalizing start with
  | nil =>
    obtain ⟨chars, more, htable, hmore⟩ := table_starts start after
    have hupTo : upTo start (table start after) = [⟨start, chars⟩] := by
      rw [htable, upTo_cons (Nat.le_refl start), upTo_eq_nil hmore]
    rw [Text.byteLength_nil, Nat.add_zero, List.nil_append, hupTo]
    exact ⟨rfl, congrArg some (column_of_not_mem List.not_mem_nil start chars)⟩
  | cons c before ih =>
    obtain ⟨hcount, hcolumn⟩ := ih (start + c.utf8Size)
    have hshift : start + Text.byteLength (c :: before) = start + c.utf8Size + Text.byteLength before := by
      rw [Text.byteLength_cons, Nat.add_assoc]
    have hle : start ≤ start + c.utf8Size + Text.byteLength before :=
      Nat.le_add_right_of_le (Nat.le_add_right start _)
    rw [hshift, List.cons_append]
    by_cases hc : c = '\n'
    · subst hc
      have hupTo : upTo (start + '\n'.utf8Size + Text.byteLength before) (table start ('\n' :: (before ++ after))) =
          ⟨start, ['\n']⟩ :: upTo (start + '\n'.utf8Size + Text.byteLength before)
            (table (start + '\n'.utf8Size) (before ++ after)) := by
        rw [table, if_pos rfl]
        exact upTo_cons hle _
      obtain ⟨line, more, htaken⟩ :=
        List.exists_cons_of_length_pos (Nat.lt_of_lt_of_eq (Nat.succ_pos _) hcount.symm)
      rw [hupTo]
      rw [htaken] at hcount hcolumn ⊢
      rw [List.getLast?_cons_cons, hcolumn, Text.columnAt_newline]
      refine ⟨?_, rfl⟩
      rw [List.length_cons, hcount, Text.lineAt, Text.lineAt, List.count_cons_self]
    · obtain ⟨line, more, htable, hcons⟩ := table_cons hc start (before ++ after)
      obtain ⟨chars, more', htable', -⟩ := table_starts (start + c.utf8Size) (before ++ after)
      obtain ⟨rfl, rfl⟩ := List.cons.inj (htable.symm.trans htable')
      have hnext : start + c.utf8Size ≤ start + c.utf8Size + Text.byteLength before := Nat.le_add_right _ _
      rw [htable, upTo_cons hnext] at hcount hcolumn
      rw [hcons, upTo_cons hle]
      have hlines := Nat.succ.inj hcount
      refine ⟨?_, ?_⟩
      · rw [List.length_cons, hlines, Text.lineAt, List.count_cons_of_ne hc]
      · by_cases hmem : '\n' ∈ before
        · obtain ⟨line, taken, htaken⟩ :=
            List.exists_cons_of_length_pos (Nat.lt_of_lt_of_eq (List.count_pos_iff.mpr hmem) hlines.symm)
          rw [htaken, List.getLast?_cons_cons] at hcolumn ⊢
          rw [hcolumn, Text.columnAt_cons_of_mem hmem]
        · have hfirst : '\n' ∉ c :: before := List.not_mem_cons_of_ne_of_not_mem (Ne.symm hc) hmem
          obtain ⟨chars', more', htable''⟩ := table_append_of_not_mem hfirst start after
          obtain ⟨heq, -⟩ := List.cons.inj (hcons.symm.trans htable'')
          rw [List.length_eq_zero_iff.mp (hlines.trans (List.count_eq_zero.mpr hmem)), heq, ← hshift]
          exact congrArg some (column_of_not_mem hfirst start chars')

end Line

namespace Locator

/-- A locator finds the position that is counted in the text before a place. -/
theorem position_append (id : FileId) (before after : List Char) :
    (ofChars id (before ++ after)).position (Text.byteLength before) =
      (Text.lineAt before, Text.columnAt before) := by
  have hmin : min (Text.byteLength before) (Text.byteLength (before ++ after)) = Text.byteLength before := by
    rw [Text.byteLength_append]
    omega
  have htable := Line.table_upTo 0 before after
  simp only [Nat.zero_add, Line.upTo] at htable
  simp only [position, ofChars, hmin, htable.1, htable.2, Option.getD_some]

/-- The span of a piece of a text. -/
theorem span_append (id : FileId) (before after : List Char) (stop : Nat) :
    (ofChars id (before ++ after)).span (Text.byteLength before) stop =
      ⟨id, Text.byteLength before, stop, Text.lineAt before, Text.columnAt before⟩ := by
  rw [span, position_append]
  rfl

end Locator

end KconfigLang
