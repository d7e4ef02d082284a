import KconfigLang.Proofs.Token.Gap

/-!
# Tiling

The stream of a text covers the text: its items stand in order, do not overlap, and only gaps are left out.

- `Tiles`: a text made of items with a gap before each and one behind the last.
- `Tiles.of_items`: every text is made so of the items of its stream.
- `items_tile_text`: what follows for the byte ranges of the items.
-/

namespace KconfigLang

/-- A text whose first character is at byte `offset`, made of the given items with a gap before each and one
behind the last. An item covers the whole lexeme that starts at it. -/
inductive Tiles : Nat → List Char → List StreamItem → Prop
  | gap {offset : Nat} {ps : List GapPiece} (hgap : IsGap ps []) : Tiles offset (gapChars ps) []
  | item {offset : Nat} {ps : List GapPiece} {taken rest : List Char} {item : StreamItem}
      {items : List StreamItem} (hgap : IsGap ps (item.head :: taken ++ rest))
      (hlexeme : (Lexeme.read item.head (taken ++ rest)).extra = taken.length)
      (hstart : item.start = offset + Text.byteLength (gapChars ps))
      (hstop : item.stop = item.start + Text.byteLength (item.head :: taken))
      (more : Tiles item.stop rest items) :
      Tiles offset (gapChars ps ++ (item.head :: taken ++ rest)) (item :: items)

/-- A list that is split in two ways is split before or behind the first split. -/
theorem append_eq_append_cons {xs ys before after : List Char} {c : Char}
    (h : xs ++ ys = before ++ c :: after) :
    (∃ more, xs = before ++ c :: more ∧ after = more ++ ys) ∨
      ∃ more, before = xs ++ more ∧ ys = more ++ c :: after := by
  rcases List.append_eq_append_iff.mp h with ⟨more, hbefore, hys⟩ | ⟨more, hxs, hmore⟩
  · exact .inr ⟨more, hbefore, hys⟩
  · cases more with
    | nil => exact .inr ⟨[], by simpa using hxs.symm, hmore.symm⟩
    | cons d more =>
      obtain ⟨rfl, hafter⟩ := List.cons.inj hmore
      exact .inl ⟨more, hxs, hafter⟩

namespace Tiles

variable {offset : Nat} {cs : List Char} {items : List StreamItem}

/-- The items that a cursor yields tile the text before it. -/
theorem of_items (cur : Cursor) : Tiles cur.offset cur.rest cur.items := by
  fun_induction Cursor.items cur with
  | case1 cur hnone =>
    obtain ⟨ps, hrest, hgap⟩ := Cursor.next?_eq_none hnone
    rw [hrest]
    exact .gap hgap
  | case2 cur item after hnext ih =>
    obtain ⟨ps, taken, hrest, hgap, hlexeme, hstart, hstop, hafter, -⟩ := Cursor.next?_cases hnext
    rw [hrest]
    exact .item hgap hlexeme hstart hstop (hafter ▸ ih)

/-- No item covers nothing. -/
theorem start_lt_stop (h : Tiles offset cs items) : ∀ item ∈ items, item.start < item.stop := by
  induction h with
  | gap => simp
  | @item offset ps taken rest item items hgap hlexeme hstart hstop more ih =>
    have hsize := Char.utf8Size_pos item.head
    refine List.forall_mem_cons.mpr ⟨?_, ih⟩
    rw [hstop, Text.byteLength_cons]
    omega

/-- Every item is a piece of the text, from one character boundary to another. -/
theorem exists_piece (h : Tiles offset cs items) : ∀ item ∈ items, ∃ before piece after,
    cs = before ++ piece ++ after ∧ piece.head? = some item.head ∧
      item.start = offset + Text.byteLength before ∧
      item.stop = offset + Text.byteLength (before ++ piece) := by
  induction h with
  | gap => simp
  | @item offset ps taken rest item items hgap hlexeme hstart hstop more ih =>
    refine List.forall_mem_cons.mpr ⟨?_, fun later hlater => ?_⟩
    · refine ⟨gapChars ps, item.head :: taken, rest, by simp, rfl, hstart, ?_⟩
      rw [hstop, hstart, Text.byteLength_append, Nat.add_assoc]
    · obtain ⟨before, piece, after, hrest, hhead, hfrom, hto⟩ := ih later hlater
      refine ⟨gapChars ps ++ (item.head :: taken ++ before), piece, after, ?_, hhead, ?_, ?_⟩
      · simp [hrest]
      · rw [hfrom, hstop, hstart]
        simp only [Text.byteLength_append]
        omega
      · rw [hto, hstop, hstart]
        simp only [Text.byteLength_append]
        omega

theorem le_start (h : Tiles offset cs items) : ∀ item ∈ items, offset ≤ item.start := by
  intro item hitem
  obtain ⟨before, piece, after, -, -, hstart, -⟩ := h.exists_piece item hitem
  omega

/-- Each item ends before the next starts. -/
theorem pairwise (h : Tiles offset cs items) : items.Pairwise (·.stop ≤ ·.start) := by
  induction h with
  | gap => exact .nil
  | item hgap hlexeme hstart hstop more ih => exact .cons more.le_start ih

/-- There are no more items than bytes. -/
theorem length_le (h : Tiles offset cs items) : items.length ≤ Text.byteLength cs := by
  induction h with
  | gap => simp
  | @item offset ps taken rest item items hgap hlexeme hstart hstop more ih =>
    have hsize := Char.utf8Size_pos item.head
    simp only [List.length_cons, Text.byteLength_append, Text.byteLength_cons, List.cons_append]
    omega

/-- A character of the text belongs to an item or to a gap that no item touches. -/
theorem covered (h : Tiles offset cs items) {before after : List Char} {c : Char}
    (hcs : cs = before ++ c :: after) :
    (∃ item ∈ items, item.start ≤ offset + Text.byteLength before ∧
        offset + Text.byteLength (before ++ [c]) ≤ item.stop) ∨
      ∃ pre ps post, cs = pre ++ gapChars ps ++ post ∧ IsGap ps post ∧ pre <+: before ∧
        before ++ [c] <+: pre ++ gapChars ps ∧ ∀ item ∈ items,
          item.stop ≤ offset + Text.byteLength pre ∨
            offset + Text.byteLength (pre ++ gapChars ps) ≤ item.start := by
  induction h generalizing before after with
  | @gap offset ps hgap =>
    refine .inr ⟨[], ps, [], by simp, hgap, List.nil_prefix, ⟨after, ?_⟩, by simp⟩
    rw [hcs]
    simp
  | @item offset ps taken rest item items hgap hlexeme hstart hstop more ih =>
    have hrange : Text.byteLength (item.head :: taken) + item.start = item.stop := by omega
    rcases append_eq_append_cons hcs with ⟨rest', hps, -⟩ | ⟨before', rfl, hrest⟩
    -- the character is in the gap
    · refine .inr ⟨[], ps, item.head :: taken ++ rest, rfl, hgap, List.nil_prefix, ⟨rest', ?_⟩, ?_⟩
      · simp [hps]
      · refine List.forall_mem_cons.mpr ⟨.inr hstart.ge, fun later hlater => .inr ?_⟩
        have hlate := more.le_start later hlater
        rw [List.nil_append]
        omega
    · rcases append_eq_append_cons hrest with ⟨rest', htaken, -⟩ | ⟨before'', rfl, hrest'⟩
      -- the character is in the item
      · refine .inl ⟨item, List.mem_cons_self, ?_, ?_⟩
        · rw [Text.byteLength_append]
          omega
        · rw [htaken] at hrange
          simp only [Text.byteLength_append, Text.byteLength_cons, Text.byteLength_nil] at hrange ⊢
          omega
      -- the character is behind the item
      · have hshift (ds : List Char) :
            offset + Text.byteLength (gapChars ps ++ (item.head :: taken ++ ds)) =
              item.stop + Text.byteLength ds := by
          simp only [Text.byteLength_append] at hrange ⊢
          omega
        rcases ih hrest' with ⟨later, hlater, hfrom, hto⟩ | ⟨pre, qs, post, hpost, hqs, hpre, hupto, hfree⟩
        · refine .inl ⟨later, List.mem_cons_of_mem _ hlater, ?_, ?_⟩
          · rw [hshift]
            exact hfrom
          · rw [List.append_assoc, List.append_assoc, hshift]
            exact hto
        · refine .inr ⟨gapChars ps ++ (item.head :: taken ++ pre), qs, post, ?_, hqs, ?_, ?_, ?_⟩
          · rw [hpost]
            simp only [List.append_assoc]
          · exact (List.prefix_append_right_inj _).mpr ((List.prefix_append_right_inj _).mpr hpre)
          · simp only [List.append_assoc]
            exact (List.prefix_append_right_inj _).mpr ((List.prefix_append_right_inj _).mpr hupto)
          · rw [List.append_assoc, List.append_assoc, hshift, hshift]
            exact List.forall_mem_cons.mpr ⟨.inl (Nat.le_add_right _ _), hfree⟩

end Tiles

/-- The stream of a text ends, and its items tile the text: their byte ranges are not empty, lie inside the text
from one character boundary to another and follow each other without an overlap; every character outside of
them belongs to a gap; so there are no more items than bytes. -/
theorem items_tile_text (cs : List Char) :
    Tiles 0 cs (Cursor.ofChars cs).items ∧
      (∀ item ∈ (Cursor.ofChars cs).items, item.start < item.stop ∧ ∃ before piece after,
        cs = before ++ piece ++ after ∧ item.start = Text.byteLength before ∧
          item.stop = Text.byteLength (before ++ piece)) ∧
      (Cursor.ofChars cs).items.Pairwise (·.stop ≤ ·.start) ∧
      (∀ before c after, cs = before ++ c :: after →
        (∃ item ∈ (Cursor.ofChars cs).items, item.start ≤ Text.byteLength before ∧
          Text.byteLength (before ++ [c]) ≤ item.stop) ∨
        ∃ pre ps post, cs = pre ++ gapChars ps ++ post ∧ IsGap ps post ∧ pre <+: before ∧
          before ++ [c] <+: pre ++ gapChars ps ∧ ∀ item ∈ (Cursor.ofChars cs).items,
            item.stop ≤ Text.byteLength pre ∨ Text.byteLength (pre ++ gapChars ps) ≤ item.start) ∧
      (Cursor.ofChars cs).items.length ≤ Text.byteLength cs := by
  have htiles : Tiles 0 cs (Cursor.ofChars cs).items := Tiles.of_items (Cursor.ofChars cs)
  refine ⟨htiles, fun item hitem => ?_, htiles.pairwise, fun before c after hcs => ?_, htiles.length_le⟩
  · obtain ⟨before, piece, after, hsplit, -, hstart, hstop⟩ := htiles.exists_piece item hitem
    rw [Nat.zero_add] at hstart hstop
    exact ⟨htiles.start_lt_stop item hitem, before, piece, after, hsplit, hstart, hstop⟩
  · simpa using htiles.covered hcs

end KconfigLang
