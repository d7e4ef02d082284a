import KconfigLang.Proofs.Text.Position
import KconfigLang.Proofs.Token.LineLocal
import KconfigLang.Proofs.Token.Tiling
import Mathlib.Data.List.DropRight

/-!
# Texts one behind the other

The tokens of a text of whole lines with another text behind it are the tokens of the one and then those of the
other, if nothing reads over the place where they meet: the last line of the first has no backslash, and the
second does not start with an indented line.

- `Cursor.Inside`: a cursor in the first text; with more behind that text it yields the same items and then what
  is behind (`Inside.items_followedBy`).
- `Cursor.Shifted`: a cursor in the second text, and one as far behind the start of that text in both.
- `items_append`: the stream of the two texts.
- `tokenize_append`: their tokens or their failure.
-/

namespace KconfigLang

/-! ## Gaps -/

/-- A gap in a text of whole lines stays one with more behind the text. -/
theorem IsGap.followedBy {ps : List GapPiece} {rest : List Char} (h : IsGap ps rest)
    (hend : EndsLine (gapChars ps ++ rest)) (more : List Char) : IsGap ps (rest ++ more) := by
  induction ps with
  | nil => trivial
  | cons p ps ih =>
    have hmore : EndsLine (gapChars ps ++ rest) :=
      hend.suffix ⟨p.chars, by rw [gapChars_cons, List.append_assoc]⟩
    cases p with
    | space c => exact ⟨h.1, ih h.2 hmore⟩
    | continuation r => exact ih h hmore
    | comment body =>
      obtain ⟨hbody, hline, hgap⟩ := h
      refine ⟨hbody, ?_, ih hgap hmore⟩
      rw [← List.append_assoc]
      cases hrest : gapChars ps ++ rest with
      | cons c cs =>
        rw [hrest] at hline
        exact hline
      | nil =>
        -- The last line would be the comment.
        have hcomment : EndsLine ('#' :: body) := by
          rw [gapChars_cons, List.append_assoc, hrest, List.append_nil] at hend
          exact hend
        have hmem : '\n' ∈ '#' :: body :=
          List.mem_of_getLast? (hcomment.resolve_left (List.cons_ne_nil _ _))
        exact absurd hmem (List.not_mem_cons_of_ne_of_not_mem (by decide) hbody)

/-! ## The ends of lines -/

/-- The last line of a text of whole lines, without its newline. -/
def Text.lastLine (cs : List Char) : List Char :=
  cs.dropLast.rtakeWhile (· ≠ '\n')

theorem Text.lastLine_suffix {gap : List Char} (hne : gap ≠ []) (before : List Char) :
    lastLine gap ⊆ lastLine (before ++ gap) := by
  unfold lastLine
  rw [List.dropLast_append_of_ne_nil hne]
  intro c hc
  rw [List.rtakeWhile, List.mem_reverse] at hc ⊢
  rw [List.reverse_append, List.takeWhile_append]
  split
  · exact List.mem_append_left _ ((List.takeWhile_prefix _).subset hc)
  · exact hc

namespace Cursor

theorem hasLineEnd_append {continued : Bool} {gap : List Char} (h : hasLineEnd continued gap = true)
    (more : List Char) : hasLineEnd continued (gap ++ more) = true := by
  induction gap generalizing continued with
  | nil => exact absurd h Bool.false_ne_true
  | cons c gap ih =>
    simp only [List.cons_append, hasLineEnd] at h ⊢
    split_ifs at h ⊢ with hbackslash hnewline hreturn
    · exact ih h
    · rcases (Bool.or_eq_true _ _).mp h with hfree | hlater
      · rw [hfree, Bool.true_or]
      · rw [ih hlater, Bool.or_true]
    · exact ih h
    · exact ih h

/-- Behind a newline nothing is continued. -/
theorem hasLineEnd_behind_newline {gap : List Char} (h : hasLineEnd false gap = true) (continued : Bool)
    (before : List Char) : hasLineEnd continued (before ++ '\n' :: gap) = true := by
  induction before generalizing continued with
  | nil => simp [hasLineEnd, h]
  | cons c before ih => simp [hasLineEnd, ih]

/-- A line without a backslash ends. -/
theorem hasLineEnd_line {line : List Char} (h : '\\' ∉ line) : hasLineEnd false (line ++ ['\n']) = true := by
  induction line with
  | nil => rfl
  | cons c line ih =>
    rw [List.mem_cons, not_or] at h
    simp [hasLineEnd, Ne.symm h.1, ih h.2]

/-- A gap that reaches over the end of a line without a backslash has a line end. -/
theorem hasLineEnd_of_suffix {text gap : List Char} (hend : EndsLine text) (hlast : '\\' ∉ Text.lastLine text)
    (hgap : gap <:+ text) (hne : gap ≠ []) : hasLineEnd false gap = true := by
  have hnewline : gap.getLast? = some '\n' := (hend.suffix hgap).resolve_left hne
  obtain ⟨before, rfl⟩ := hgap
  have hline : '\\' ∉ Text.lastLine gap := fun hmem => hlast (Text.lastLine_suffix hne before hmem)
  obtain ⟨init, rfl⟩ := List.getLast?_eq_some_iff.mp hnewline
  rw [Text.lastLine, List.dropLast_concat] at hline
  have hinit : init = init.rdropWhile (· ≠ '\n') ++ init.rtakeWhile (· ≠ '\n') :=
    List.rdropWhile_append_rtakeWhile.symm
  rw [hinit]
  by_cases hfirst : init.rdropWhile (· ≠ '\n') = []
  · rw [hfirst]
    exact hasLineEnd_line hline
  · have hlines : (init.rdropWhile (· ≠ '\n')).getLast? = some '\n' := by
      have hstop := List.rdropWhile_last_not _ _ hfirst
      rw [List.getLast?_eq_some_getLast hfirst]
      simpa using hstop
    obtain ⟨lines, hlines⟩ := List.getLast?_eq_some_iff.mp hlines
    rw [hlines, List.append_assoc, List.append_assoc]
    exact hasLineEnd_behind_newline (hasLineEnd_line hline) false lines

end Cursor

/-! ## The first text -/

namespace Cursor

/-- The same cursor with more behind its text. -/
def followedBy (cur : Cursor) (more : List Char) : Cursor :=
  { cur with rest := cur.rest ++ more }

theorem advance_followedBy (cur : Cursor) (c : Char) {cs : List Char} {n : Nat} (hn : n ≤ cs.length)
    (more : List Char) :
    (cur.followedBy more).advance c (cs ++ more) n = (cur.advance c cs n).followedBy more := by
  simp only [advance, followedBy, List.take_append_of_le_length hn, List.drop_append_of_le_length hn]

/-- A cursor in a text. What it has read since the last token and what is left are the end of the text, and not
nothing. -/
structure Inside (text : List Char) (cur : Cursor) : Prop where
  place : cur.StandsIn text
  gap : ∀ gap ∈ cur.gap, gap ++ cur.rest ≠ [] ∧ gap ++ cur.rest <:+ text

theorem inside_ofChars (text : List Char) : (ofChars text).Inside text :=
  ⟨⟨[], rfl, rfl⟩, fun _ h => absurd h (Option.not_mem_none _)⟩

variable {text more : List Char} {cur after : Cursor} {item : StreamItem}

theorem Inside.endsLine (h : cur.Inside text) (hend : EndsLine text) : EndsLine cur.rest := by
  obtain ⟨before, htext, -⟩ := h.place
  exact hend.suffix ⟨before, htext.symm⟩

theorem Inside.advance (h : cur.Inside text) {c : Char} {cs : List Char} (hrest : cur.rest = c :: cs)
    (n : Nat) : (cur.advance c cs n).Inside text where
  place := h.place.advance hrest n
  gap := by
    intro gap hgap
    obtain ⟨before, hbefore, rfl⟩ := Option.map_eq_some_iff.mp hgap
    have hsame : (before ++ c :: cs.take n) ++ (cur.advance c cs n).rest = before ++ cur.rest := by
      rw [hrest, Cursor.advance, List.append_assoc, List.cons_append, List.take_append_drop]
    rw [hsame]
    exact h.gap before hbefore

/-- Behind the first character of a lexeme that is not skipped its line goes on. -/
theorem getLast?_behind {c : Char} {cs : List Char} (hend : EndsLine (c :: cs))
    (hkind : (Lexeme.read c cs).kind ≠ .gap) : cs.getLast? = some '\n' := by
  have hlast := hend.resolve_left (List.cons_ne_nil _ _)
  cases cs with
  | nil =>
    obtain rfl : c = '\n' := by simpa using hlast
    exact absurd rfl hkind
  | cons d cs => rwa [List.getLast?_cons_cons] at hlast

/-- A token leaves the newline at the end of the text to the gap behind it. -/
theorem Inside.next? (h : cur.Inside text) (hend : EndsLine text) (hnext : cur.next? = some (item, after)) :
    after.Inside text := by
  fun_induction Cursor.next? cur with
  | case1 => exact absurd hnext (Option.some_ne_none _).symm
  | case2 cur c cs hrest lexeme next hkind ih => exact ih (h.advance hrest _) hnext
  | case3 cur c cs hrest lexeme next t hkind =>
    obtain ⟨-, rfl⟩ := Prod.mk.inj (Option.some.inj hnext)
    have hplace : next.StandsIn text := h.place.advance hrest _
    have hcs : cs.getLast? = some '\n' :=
      getLast?_behind (hrest ▸ h.endsLine hend) fun hgap => LexemeKind.noConfusion (hkind.symm.trans hgap)
    have hrest' : next.rest.getLast? = some '\n' :=
      Lexeme.getLast?_drop_of_token hcs (t := t) (by rw [← hkind])
    refine ⟨hplace, ?_⟩
    rintro gap ⟨⟩
    obtain ⟨before, htext, -⟩ := hplace
    exact ⟨List.ne_nil_of_mem (List.mem_of_getLast? hrest'), before, htext.symm⟩
  | case4 cur c cs hrest lexeme next cause hkind =>
    obtain ⟨-, rfl⟩ := Prod.mk.inj (Option.some.inj hnext)
    exact h.advance hrest _

/-- In front of an item of a text of whole lines a cursor does not see what is behind the text. -/
theorem next?_followedBy (hend : EndsLine cur.rest) (hmore : StartsAtMargin more)
    (hnext : cur.next? = some (item, after)) :
    (cur.followedBy more).next? = some (item, after.followedBy more) := by
  obtain ⟨ps, c, cs, hrest, hgap, hkind, hnext⟩ := next?_eq_some hnext
  rw [hrest] at hend
  have hskip : (cur.followedBy more).next? = ((cur.skip ps (c :: cs)).followedBy more).next? :=
    next?_skip (by simp [followedBy, skip, hrest]) (hgap.followedBy hend more)
  have hspace : Lexeme.isSpace c = false :=
    Bool.eq_false_iff.mpr fun hc => hkind (by rw [Lexeme.read, if_pos hc])
  have hread : Lexeme.read c (cs ++ more) = Lexeme.read c cs :=
    Lexeme.read_append (getLast?_behind (hend.suffix (List.suffix_append _ _)) hkind) hmore hspace
  have hadvance := advance_followedBy (cur.skip ps (c :: cs)) c (Lexeme.extra_le c cs) more
  have hrest' : ((cur.skip ps (c :: cs)).followedBy more).rest = c :: (cs ++ more) := rfl
  rw [hskip, next?_of_cons hrest', hread, hadvance]
  rw [next?_of_cons rfl] at hnext
  cases hlexeme : (Lexeme.read c cs).kind with
  | gap => exact absurd hlexeme hkind
  | token t =>
    simp only [hlexeme] at hnext ⊢
    obtain ⟨rfl, rfl⟩ := Prod.mk.inj (Option.some.inj hnext)
    rfl
  | failure cause =>
    simp only [hlexeme] at hnext ⊢
    obtain ⟨rfl, rfl⟩ := Prod.mk.inj (Option.some.inj hnext)
    rfl

/-- Where no item of the text comes any more, the first item behind the text comes next. -/
theorem next?_followedBy_of_none (hend : EndsLine cur.rest) (hnone : cur.next? = none) :
    (cur.followedBy more).next? =
      (⟨more, cur.offset + Text.byteLength cur.rest, cur.gap.map (· ++ cur.rest)⟩ : Cursor).next? := by
  obtain ⟨ps, hrest, hgap⟩ := next?_eq_none hnone
  rw [hrest]
  refine next?_skip (by rw [followedBy, hrest]) (hgap.followedBy ?_ more)
  rwa [List.append_nil, ← hrest]

end Cursor

/-! ## The second text -/

/-- The same item further behind. -/
def StreamItem.shift (n : Nat) (item : StreamItem) : StreamItem :=
  { item with start := n + item.start, stop := n + item.stop }

namespace Cursor

/-- Cursors with the same text before them, the second one `n` bytes further behind; the first one may be at the
start of its text and the other behind the end of a line. -/
structure Shifted (n : Nat) (cur cur' : Cursor) : Prop where
  rest : cur'.rest = cur.rest
  offset : cur'.offset = n + cur.offset
  gap : cur'.gap = cur.gap ∨ cur.gap = none ∧ cur'.startsLine = true

variable {n : Nat} {cur cur' after : Cursor} {item : StreamItem}

theorem startsLine_advance (h : cur.startsLine = true) (c : Char) (cs : List Char) (m : Nat) :
    (cur.advance c cs m).startsLine = true := by
  obtain ⟨rest, offset, gap⟩ := cur
  cases gap with
  | none => rfl
  | some gap => exact hasLineEnd_append h _

theorem Shifted.settle_eq (h : Shifted n cur cur') (t : Token) : cur'.settle t = cur.settle t := by
  have hstart : cur'.startsLine = cur.startsLine := by
    rcases h.gap with hgap | ⟨hgap, hstart⟩
    · rw [startsLine, startsLine, hgap]
    · rw [hstart, startsLine, hgap]
  unfold settle
  rw [hstart]

theorem Shifted.advance (h : Shifted n cur cur') (c : Char) (cs : List Char) (m : Nat) :
    Shifted n (cur.advance c cs m) (cur'.advance c cs m) where
  rest := rfl
  offset := by simp only [Cursor.advance, h.offset, Nat.add_assoc]
  gap := by
    rcases h.gap with hgap | ⟨hgap, hstart⟩
    · exact .inl (by simp only [Cursor.advance, hgap])
    · exact .inr ⟨by simp only [Cursor.advance, hgap, Option.map_none], startsLine_advance hstart c cs m⟩

/-- Both streams go on with the same item or end. -/
theorem Shifted.next? (h : Shifted n cur cur') :
    (cur.next? = none ∧ cur'.next? = none) ∨ ∃ item after after', cur.next? = some (item, after) ∧
      cur'.next? = some (item.shift n, after') ∧ Shifted n after after' := by
  induction hlen : cur.rest.length using Nat.strongRecOn generalizing cur cur' with
  | _ m ih =>
    cases hrest : cur.rest with
    | nil => exact .inl ⟨next?_of_nil hrest, next?_of_nil (h.rest.trans hrest)⟩
    | cons c cs =>
      have hafter := h.advance c cs (Lexeme.read c cs).extra
      rw [next?_of_cons hrest, next?_of_cons (h.rest.trans hrest)]
      cases hkind : (Lexeme.read c cs).kind with
      | gap => exact ih _ (hlen ▸ length_rest_advance hrest _) hafter rfl
      | token t =>
        refine .inr ⟨_, _, { cur'.advance c cs (Lexeme.read c cs).extra with gap := some [] }, rfl, ?_,
          hafter.rest, hafter.offset, .inl rfl⟩
        simp only [h.settle_eq, h.offset, hafter.offset, StreamItem.shift]
      | failure cause =>
        refine .inr ⟨_, _, _, rfl, ?_, hafter⟩
        simp only [h.offset, hafter.offset, StreamItem.shift]

/-- The two streams have the same items. -/
theorem Shifted.items (h : Shifted n cur cur') : cur'.items = cur.items.map (·.shift n) := by
  fun_induction Cursor.items cur generalizing cur' with
  | case1 cur hnone =>
    rcases h.next? with ⟨-, hnone'⟩ | ⟨item, after, after', hsome, -⟩
    · exact items_of_next?_eq_none hnone'
    · exact absurd (hnone.symm.trans hsome) (Option.some_ne_none _).symm
  | case2 cur item after hsome ih =>
    rcases h.next? with ⟨hnone, -⟩ | ⟨item₀, after₀, after', hsome₀, hsome', hafter⟩
    · exact absurd (hsome.symm.trans hnone) (Option.some_ne_none _)
    · obtain ⟨rfl, rfl⟩ := Prod.mk.inj (Option.some.inj (hsome.symm.trans hsome₀))
      rw [items_of_next?_eq_some hsome', ih hafter, List.map_cons]

end Cursor

/-! ## Both texts -/

namespace Cursor

theorem items_congr {cur cur' : Cursor} (h : cur.next? = cur'.next?) : cur.items = cur'.items := by
  cases hnext : cur'.next? with
  | none => rw [items_of_next?_eq_none hnext, items_of_next?_eq_none (h.trans hnext)]
  | some next => rw [items_of_next?_eq_some hnext, items_of_next?_eq_some (h.trans hnext)]

/-- A cursor in the first text yields what is left of that text and then the second one. -/
theorem Inside.items_followedBy {text more : List Char} {cur : Cursor} (h : cur.Inside text)
    (hend : EndsLine text) (hlast : '\\' ∉ Text.lastLine text) (hmore : StartsAtMargin more) :
    (cur.followedBy more).items =
      cur.items ++ (ofChars more).items.map (·.shift (Text.byteLength text)) := by
  fun_induction Cursor.items cur with
  | case1 cur hnone =>
    rw [items_congr (next?_followedBy_of_none (h.endsLine hend) hnone), List.nil_append]
    obtain ⟨before, htext, hoffset⟩ := h.place
    refine Shifted.items ⟨rfl, ?_, ?_⟩
    · show cur.offset + Text.byteLength cur.rest = Text.byteLength text + 0
      rw [hoffset, ← Text.byteLength_append, ← htext, Nat.add_zero]
    · refine .inr ⟨rfl, ?_⟩
      cases hgap : cur.gap with
      | none => rfl
      | some gap =>
        obtain ⟨hne, hsuffix⟩ := h.gap gap hgap
        exact hasLineEnd_of_suffix hend hlast hsuffix hne
  | case2 cur item after hnext ih =>
    rw [items_of_next?_eq_some (next?_followedBy (h.endsLine hend) hmore hnext), ih (h.next? hend hnext),
      List.cons_append]

end Cursor

/-- The stream of two texts is the stream of the first and then that of the second, as far behind as the first
is long. -/
theorem items_append {first second : List Char} (hend : EndsLine first)
    (hlast : '\\' ∉ Text.lastLine first) (hmargin : StartsAtMargin second) :
    (Cursor.ofChars (first ++ second)).items =
      (Cursor.ofChars first).items ++
        (Cursor.ofChars second).items.map (·.shift (Text.byteLength first)) :=
  (Cursor.inside_ofChars first).items_followedBy hend hlast hmargin

/-! ## Positions -/

theorem Text.columnAt_append {first : List Char} (hend : EndsLine first) (cs : List Char) :
    columnAt (first ++ cs) = columnAt cs := by
  rcases hend with rfl | hlast
  · rfl
  obtain ⟨lines, rfl⟩ := List.getLast?_eq_some_iff.mp hlast
  rw [List.append_assoc, List.singleton_append]
  clear hlast
  induction lines with
  | nil => exact columnAt_newline cs
  | cons c lines ih => rw [List.cons_append, columnAt_cons_of_mem (by simp), ih]

/-- The same place in a text with `first` before it. -/
def Span.behind (first : List Char) (s : Span) : Span :=
  { s with
    start := Text.byteLength first + s.start
    stop := Text.byteLength first + s.stop
    line := first.count '\n' + s.line }

/-- The same token in a text with `first` before it. -/
def Lexed.behind (first : List Char) (t : Lexed) : Lexed :=
  { t with span := t.span.behind first }

/-- The same failure in a text with `first` before it. -/
def LexError.behind (first : List Char) (e : LexError) : LexError :=
  { e with span := e.span.behind first }

section Locate

variable {first second : List Char} {item : StreamItem}

/-- The items of a text start at one of its characters. -/
theorem exists_start_of_mem_items {cs : List Char} (h : item ∈ (Cursor.ofChars cs).items) :
    ∃ before after, cs = before ++ after ∧ item.start = Text.byteLength before := by
  have htiles : Tiles 0 cs (Cursor.ofChars cs).items := Tiles.of_items (Cursor.ofChars cs)
  obtain ⟨before, piece, after, hcs, -, hstart, -⟩ := htiles.exists_piece item h
  exact ⟨before, piece ++ after, by rw [hcs, List.append_assoc], by rw [hstart, Nat.zero_add]⟩

/-- The items of the first text are where they were. -/
theorem locate_first (id : FileId) (h : item ∈ (Cursor.ofChars first).items) :
    item.locate (.ofChars id (first ++ second)) = item.locate (.ofChars id first) := by
  obtain ⟨before, after, rfl, hstart⟩ := exists_start_of_mem_items h
  have hspan : (Locator.ofChars id (before ++ after ++ second)).span item.start item.stop =
      (Locator.ofChars id (before ++ after)).span item.start item.stop := by
    rw [hstart, List.append_assoc, Locator.span_append, Locator.span_append]
  simp only [StreamItem.locate, hspan]

/-- The items of the second text are moved by the first. -/
theorem locate_second (id : FileId) (hend : EndsLine first) (h : item ∈ (Cursor.ofChars second).items) :
    (item.shift (Text.byteLength first)).locate (.ofChars id (first ++ second)) =
      ((item.locate (.ofChars id second)).map (Lexed.behind first)).mapError (LexError.behind first) := by
  obtain ⟨before, after, rfl, hstart⟩ := exists_start_of_mem_items h
  have hspan : (Locator.ofChars id (first ++ (before ++ after))).span (Text.byteLength first + item.start)
      (Text.byteLength first + item.stop) =
        ((Locator.ofChars id (before ++ after)).span item.start item.stop).behind first := by
    rw [hstart, ← Text.byteLength_append, ← List.append_assoc, Locator.span_append, Locator.span_append,
      Text.lineAt_append, Text.columnAt_append hend, Text.byteLength_append]
    rfl
  obtain ⟨content, head, start, stop⟩ := item
  simp only [StreamItem.locate, StreamItem.shift, hspan]
  cases content <;> rfl

end Locate

/-- **Texts read line by line**: where a text of whole lines whose last line has no backslash stands before a
text that does not start with an indented line, the tokens are those of the first and then those of the second,
moved by the first; and if the second has a failure, it is the same one, moved by the first. -/
theorem tokenize_append (id : FileId) {first second : List Char} {ts : List Lexed} (hend : EndsLine first)
    (hlast : '\\' ∉ Text.lastLine first) (hmargin : StartsAtMargin second)
    (h : tokenize (.ofChars id first) first = .ok ts) :
    tokenize (.ofChars id (first ++ second)) (first ++ second) =
      ((tokenize (.ofChars id second) second).map fun us =>
        ts ++ us.map (Lexed.behind first)).mapError (LexError.behind first) := by
  have hfirst : (Cursor.ofChars first).items.mapM (·.locate (.ofChars id (first ++ second))) = .ok ts := by
    rw [← h]
    exact mapM_congr fun item hitem => locate_first id hitem
  have hsecond : ((Cursor.ofChars second).items.map (·.shift (Text.byteLength first))).mapM
      (·.locate (.ofChars id (first ++ second))) =
        ((tokenize (.ofChars id second) second).map (List.map (Lexed.behind first))).mapError
          (LexError.behind first) := by
    rw [List.mapM_map, tokenize, ← mapM_map_mapError]
    exact mapM_congr fun item hitem => locate_second id hend hitem
  rw [tokenize, items_append hend hlast hmargin, List.mapM_append, hfirst, hsecond]
  cases tokenize (.ofChars id second) second <;> rfl

/-- A text that ends in a help block. -/
def helpText : List Char :=
  "config A\n\thelp\n\t  text\n".toList

/-- Its tokens. -/
def helpTokens : List Lexed :=
  [⟨.keyword .config, ⟨.root, 0, 6, 1, 1⟩⟩, ⟨.ident "A", ⟨.root, 7, 8, 1, 8⟩⟩,
    ⟨.help "text", ⟨.root, 10, 22, 2, 2⟩⟩]

/-- A text that starts with an `if`. -/
def ifText : List Char :=
  "if A\nendif\n".toList

/-- Its tokens. -/
def ifTokens : List Lexed :=
  [⟨.keyword .ifBlock, ⟨.root, 0, 2, 1, 1⟩⟩, ⟨.ident "A", ⟨.root, 3, 4, 1, 4⟩⟩,
    ⟨.keyword .endif, ⟨.root, 5, 10, 2, 1⟩⟩]

theorem tokenize_helpText : tokenize (.ofChars .root helpText) helpText = .ok helpTokens := by
  decide +kernel

theorem tokenize_ifText : tokenize (.ofChars .root ifText) ifText = .ok ifTokens := by
  decide +kernel

/-- The help block does not go on with the `if`, which opens a block behind it as it does alone. -/
theorem tokenize_helpText_append_ifText :
    tokenize (.ofChars .root (helpText ++ ifText)) (helpText ++ ifText) =
      .ok (helpTokens ++
        [⟨.keyword .ifBlock, ⟨.root, 23, 25, 4, 1⟩⟩, ⟨.ident "A", ⟨.root, 26, 27, 4, 4⟩⟩,
          ⟨.keyword .endif, ⟨.root, 28, 33, 5, 1⟩⟩]) := by
  have hmargin : StartsAtMargin ifText := HelpBlock.startsAtMargin_of_not_white (by decide) _
  have happend := tokenize_append .root (.inr rfl) (by decide) hmargin tokenize_helpText
  rw [tokenize_ifText] at happend
  exact happend

end KconfigLang
