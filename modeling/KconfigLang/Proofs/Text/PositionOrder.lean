import KconfigLang.Proofs.Text.Position
import Mathlib.Data.List.Induction

/-!
# The order of positions

A locator finds the position that is counted in the text, and finds it by halves: the starts of the lines go up, so the
lines that start before a place are the first ones. Positions go up with the places.

- `Text.Precedes`: a position comes before another one.
- `Text.IsBoundary`: a byte offset stands between characters.
- `bisect`: the first index at which a property is lost, searched by halves.
- `Line.pairwise_start_table`: the starts of the lines go up.
- `Text.precedes_append`: more text, a later position.
- `Locator.position?_eq_some_iff`: positions as words of 32 bits.
- `Locator.position_counts`: counted positions, their order, and the search.
-/

namespace KconfigLang

namespace Text

variable {before more : List Char} {c : Char}

/-- The order of positions, by lines and then by columns. -/
def Precedes (p q : Nat × Nat) : Prop :=
  p.1 < q.1 ∨ p.1 = q.1 ∧ p.2 < q.2

theorem not_precedes_self (p : Nat × Nat) : ¬ Precedes p p := by
  rintro (h | ⟨-, h⟩) <;> exact Nat.lt_irrefl _ h

/-- A byte offset stands between two characters of a text, or at one of its ends. -/
def IsBoundary (cs : List Char) (offset : Nat) : Prop :=
  ∃ before, before <+: cs ∧ byteLength before = offset

theorem IsBoundary.le_byteLength {cs : List Char} {offset : Nat} (h : IsBoundary cs offset) :
    offset ≤ byteLength cs := by
  obtain ⟨before, ⟨after, rfl⟩, rfl⟩ := h
  rw [byteLength_append]
  exact Nat.le_add_right _ _

theorem length_le_byteLength (cs : List Char) : cs.length ≤ byteLength cs := by
  induction cs with
  | nil => exact Nat.le_refl 0
  | cons c cs ih =>
    have hsize := Char.utf8Size_pos c
    rw [List.length_cons, byteLength_cons]
    omega

theorem byteLength_replicate (n : Nat) : byteLength (List.replicate n 'a') = n := by
  induction n with
  | zero => rfl
  | succ n ih =>
    rw [List.replicate_succ, byteLength_cons, ih]
    exact Nat.add_comm 1 n

/-! ## Counting -/

/-- More text leads to a later position: on the same line if it has no newline, and to a later line otherwise. -/
theorem precedes_append (h : more ≠ []) :
    Precedes (lineAt before, columnAt before) (lineAt (before ++ more), columnAt (before ++ more)) := by
  rw [Precedes, lineAt_append]
  by_cases hline : '\n' ∈ more
  · exact .inl (Nat.add_lt_add_left (Nat.succ_lt_succ (List.count_pos_iff.mpr hline)) _)
  · refine .inr ⟨by rw [lineAt, lineAt, List.count_eq_zero.mpr hline], ?_⟩
    rw [columnAt_append_of_not_mem before hline]
    exact Nat.lt_add_of_pos_right (List.length_pos_iff.mpr h)

/-- Every character moves a position by one column or by one line. -/
theorem lineAt_add_columnAt_le (cs : List Char) : lineAt cs + columnAt cs ≤ cs.length + 2 := by
  induction cs using List.reverseRecOn with
  | nil => exact Nat.le_refl 2
  | append_singleton cs c ih =>
    have hcolumn : 1 ≤ columnAt cs := Nat.succ_pos _
    have hline : lineAt (cs ++ [c]) = lineAt cs + [c].count '\n' := by
      rw [lineAt_append, lineAt, lineAt, Nat.add_assoc, Nat.add_comm 1]
    rw [hline, columnAt_concat, List.length_append, List.length_singleton]
    by_cases hc : c = '\n'
    · rw [if_pos hc, hc, List.count_singleton_self]
      omega
    · rw [if_neg hc, List.count_eq_zero.mpr (by simpa using Ne.symm hc)]
      omega

end Text

/-! ## Searching by halves -/

/-- The first index from `low` on, and before `high`, at which a property is lost; `high` if there is none. The search
halves what is left and assumes that the property does not come back. -/
def bisect (p : Nat → Bool) (low high : Nat) : Nat :=
  if low < high then
    let middle := (low + high) / 2
    if p middle then bisect p (middle + 1) high else bisect p low middle
  else low
termination_by high - low

/-- The search finds the index at which the property is lost. -/
theorem bisect_eq {p : Nat → Bool} {low high n : Nat} (hlow : low ≤ n) (hhigh : n ≤ high)
    (h : ∀ i < high, p i = true ↔ i < n) : bisect p low high = n := by
  fun_induction bisect p low high with
  | case1 low high hlt middle hp ih =>
    have hmiddle : middle < n := (h middle (by omega)).mp hp
    exact ih hmiddle hhigh h
  | case2 low high hlt middle hp ih =>
    have hmiddle : n ≤ middle := Nat.le_of_not_lt fun hn => hp ((h middle (by omega)).mpr hn)
    exact ih hlow hmiddle fun i hi => h i (by omega)
  | case3 low high hlt => omega

namespace Line

/-- The starts of the lines of a text go up. -/
theorem pairwise_start_table (start : Nat) (cs : List Char) :
    (table start cs).Pairwise fun line line' => line.start < line'.start := by
  induction cs generalizing start with
  | nil => exact List.pairwise_singleton _ _
  | cons c cs ih =>
    by_cases hc : c = '\n'
    · obtain ⟨chars, more, htable, hmore⟩ := table_starts (start + 1) cs
      rw [table, if_pos hc]
      refine List.pairwise_cons.mpr ⟨?_, ih (start + 1)⟩
      rw [htable]
      exact List.forall_mem_cons.mpr ⟨Nat.lt_succ_self _, fun line hline => Nat.lt_of_succ_lt (hmore line hline)⟩
    · obtain ⟨line, more, htable, hcons⟩ := table_cons hc start cs
      have hstarts := ih (start + c.utf8Size)
      obtain ⟨chars, more', htable', hmore⟩ := table_starts (start + c.utf8Size) cs
      obtain ⟨rfl, rfl⟩ := List.cons.inj (htable.symm.trans htable')
      rw [htable] at hstarts
      rw [hcons]
      refine List.pairwise_cons.mpr ⟨fun line hline => ?_, (List.pairwise_cons.mp hstarts).2⟩
      exact Nat.lt_of_le_of_lt (Nat.le_add_right _ _) (hmore line hline)

/-- The lines up to a place are the first ones. -/
theorem start_le_iff {lines : List Line} (h : lines.Pairwise fun line line' => line.start < line'.start)
    (offset : Nat) : ∀ i (hi : i < lines.length), lines[i].start ≤ offset ↔ i < (upTo offset lines).length := by
  induction lines with
  | nil => exact fun i hi => absurd hi (Nat.not_lt_zero i)
  | cons line more ih =>
    obtain ⟨hline, hmore⟩ := List.pairwise_cons.mp h
    by_cases hle : line.start ≤ offset
    · rw [upTo_cons hle]
      rintro (- | i) hi
      · exact iff_of_true hle (Nat.succ_pos _)
      · exact (ih hmore i (Nat.lt_of_succ_lt_succ hi)).trans Nat.succ_lt_succ_iff.symm
    · have hlate : ∀ line' ∈ line :: more, offset < line'.start :=
        List.forall_mem_cons.mpr ⟨Nat.lt_of_not_le hle, fun line' h => (Nat.lt_of_not_le hle).trans (hline line' h)⟩
      rw [upTo_eq_nil hlate]
      exact fun i hi => iff_of_false (Nat.not_le_of_lt (hlate _ (List.getElem_mem hi))) (Nat.not_lt_zero i)

end Line

namespace Locator

open Text

variable {id : FileId} {cs : List Char} {offset : Nat}

/-- Whether the line with an index starts at a byte offset or before it. -/
def startsBy (loc : Locator) (offset index : Nat) : Bool :=
  (loc.lines[index]?.map Line.start).any (· ≤ offset)

/-- The line of a byte offset, whether or not it stands between characters, is found by halves. Its index is one less
than what is found, which is not zero. -/
theorem bisect_startsBy (id : FileId) (cs : List Char) (offset : Nat) :
    ∃ index < (ofChars id cs).lines.length,
      bisect ((ofChars id cs).startsBy (min offset (ofChars id cs).size)) 0 (ofChars id cs).lines.length =
        index + 1 ∧ ((ofChars id cs).position offset).1 = index + 1 := by
  generalize hloc : ofChars id cs = loc
  have hlines : loc.lines = Line.table 0 cs := by rw [← hloc]; rfl
  generalize hplace : min offset loc.size = place
  have hposition : (loc.position offset).1 = (Line.upTo place loc.lines).length := by rw [← hplace]; rfl
  have hstarts := Line.start_le_iff (hlines ▸ Line.pairwise_start_table 0 cs) place
  have hpos : 0 < (Line.upTo place loc.lines).length := by
    obtain ⟨chars, more, htable, -⟩ := Line.table_starts 0 cs
    rw [hlines, htable, Line.upTo_cons (Nat.zero_le place)]
    exact Nat.succ_pos _
  have hle : (Line.upTo place loc.lines).length ≤ loc.lines.length := (List.takeWhile_prefix _).length_le
  have hsearch : bisect (loc.startsBy place) 0 loc.lines.length = (Line.upTo place loc.lines).length := by
    refine bisect_eq (Nat.zero_le _) hle fun i hi => ?_
    rw [← hstarts i hi, startsBy, List.getElem?_eq_getElem hi]
    exact decide_eq_true_iff
  exact ⟨(Line.upTo place loc.lines).length - 1, by omega, by omega, by omega⟩

/-- An offset past the end is taken as the end. -/
theorem position_eq_of_min {before : List Char} (h : before <+: cs)
    (hoffset : min offset (byteLength cs) = byteLength before) :
    (ofChars id cs).position offset = (lineAt before, columnAt before) := by
  obtain ⟨after, rfl⟩ := h
  have hmin : min (byteLength before) (byteLength (before ++ after)) = byteLength before := by
    rw [byteLength_append]
    omega
  rw [← position_append id before after]
  simp only [position, ofChars, hoffset, hmin]

theorem exists_position (id : FileId) (h : IsBoundary cs offset) :
    ∃ before, before <+: cs ∧ byteLength before = offset ∧
      (ofChars id cs).position offset = (lineAt before, columnAt before) := by
  obtain ⟨before, hbefore, rfl⟩ := h
  refine ⟨before, hbefore, rfl, ?_⟩
  obtain ⟨after, rfl⟩ := hbefore
  exact position_append id before after

/-- A later place has a later position. -/
theorem precedes_position (id : FileId) {offset' : Nat} (h : IsBoundary cs offset) (h' : IsBoundary cs offset')
    (hlt : offset < offset') : Precedes ((ofChars id cs).position offset) ((ofChars id cs).position offset') := by
  obtain ⟨before, hbefore, rfl, hposition⟩ := exists_position id h
  obtain ⟨before', hbefore', rfl, hposition'⟩ := exists_position id h'
  obtain ⟨more, rfl⟩ := prefix_of_byteLength_le hbefore hbefore' (Nat.le_of_lt hlt)
  rw [hposition, hposition']
  refine precedes_append ?_
  rintro rfl
  rw [List.append_nil] at hlt
  exact Nat.lt_irrefl _ hlt

/-- Places with one position are the same. -/
theorem position_injective (id : FileId) {offset' : Nat} (h : IsBoundary cs offset) (h' : IsBoundary cs offset')
    (heq : (ofChars id cs).position offset = (ofChars id cs).position offset') : offset = offset' := by
  rcases Nat.lt_trichotomy offset offset' with hlt | hsame | hlt
  · have hprecedes := precedes_position id h h' hlt
    rw [heq] at hprecedes
    exact absurd hprecedes (not_precedes_self _)
  · exact hsame
  · have hprecedes := precedes_position id h' h hlt
    rw [heq] at hprecedes
    exact absurd hprecedes (not_precedes_self _)

/-! ## Words -/

/-- What comes at an index that is a word is the next word, if there is one. -/
theorem ordinal?_eq_some_iff {index : Nat} (h : index < UInt32.size) (word : UInt32) :
    ordinal? index = some word ↔ word.toNat = index + 1 := by
  have hindex : (UInt32.ofNat index).toNat = index := UInt32.toNat_ofNat_of_lt' h
  have hnext : (UInt32.ofNat index + 1).toNat = (index + 1) % UInt32.size := by
    rw [UInt32.toNat_add, hindex]
    rfl
  simp only [ordinal?]
  by_cases hend : index + 1 = UInt32.size
  · rw [if_pos (UInt32.toNat_inj.mp (hnext.trans (by rw [hend, Nat.mod_self, UInt32.toNat_zero])))]
    exact iff_of_false (fun h => nomatch h) (Nat.ne_of_lt (hend ▸ word.toNat_lt))
  · rw [Nat.mod_eq_of_lt (Nat.lt_of_le_of_ne h hend)] at hnext
    rw [if_neg fun hzero => Nat.succ_ne_zero index (hnext.symm.trans (congrArg UInt32.toNat hzero)), Option.some_inj,
      ← UInt32.toNat_inj, hnext, eq_comm]

/-- The line and the column that are counted in a text are found if both are words. -/
theorem position?_eq_some_iff (id : FileId) (hsize : byteLength cs < UInt32.size) {before : List Char}
    (h : before <+: cs) (hoffset : min offset (byteLength cs) = byteLength before) (line column : UInt32) :
    (ofChars id cs).position? offset = some (line, column) ↔
      line.toNat = lineAt before ∧ column.toNat = columnAt before := by
  have hcount := lineAt_add_columnAt_le before
  have hlength : before.length ≤ byteLength cs := h.length_le.trans (length_le_byteLength cs)
  have hline : 1 ≤ lineAt before := Nat.succ_pos _
  have hcolumn : 1 ≤ columnAt before := Nat.succ_pos _
  have hl := ordinal?_eq_some_iff (show lineAt before - 1 < UInt32.size by omega)
  have hc := ordinal?_eq_some_iff (show columnAt before - 1 < UInt32.size by omega)
  rw [Nat.sub_add_cancel hline] at hl
  rw [Nat.sub_add_cancel hcolumn] at hc
  simp [position?, position_eq_of_min h hoffset, Option.bind_eq_some_iff, hl, hc]

/-- The position of a place as words is the position. -/
theorem position_of_position? (hsize : byteLength cs < UInt32.size) (h : IsBoundary cs offset) {p : UInt32 × UInt32}
    (hp : (ofChars id cs).position? offset = some p) :
    (ofChars id cs).position offset = p.map UInt32.toNat UInt32.toNat := by
  have hoffset := min_eq_left h.le_byteLength
  obtain ⟨before, hbefore, rfl⟩ := h
  obtain ⟨hline, hcolumn⟩ := (position?_eq_some_iff id hsize hbefore hoffset p.1 p.2).mp hp
  rw [position_eq_of_min hbefore hoffset, Prod.map, hline, hcolumn]

/-- The words run out at the end of the longest texts only. -/
theorem eq_of_position?_eq_none (hsize : byteLength cs < UInt32.size) (h : IsBoundary cs (min offset (byteLength cs)))
    (hnone : (ofChars id cs).position? offset = none) :
    min offset (byteLength cs) = byteLength cs ∧ byteLength cs + 1 = UInt32.size := by
  obtain ⟨before, hbefore, hoffset⟩ := h
  have hcount := lineAt_add_columnAt_le before
  have hline : 1 ≤ lineAt before := Nat.succ_pos _
  have hcolumn : 1 ≤ columnAt before := Nat.succ_pos _
  have hlength := length_le_byteLength before
  suffices hfull : UInt32.size ≤ before.length + 1 by omega
  by_contra hroom
  have hl : (UInt32.ofNat (lineAt before)).toNat = lineAt before := UInt32.toNat_ofNat_of_lt' (by omega)
  have hc : (UInt32.ofNat (columnAt before)).toNat = columnAt before := UInt32.toNat_ofNat_of_lt' (by omega)
  have hsome := (position?_eq_some_iff id hsize hbefore hoffset.symm _ _).mpr ⟨hl, hc⟩
  exact nomatch hnone.symm.trans hsome

/-- Places with one position are the same, also where the words run out. -/
theorem position?_injective (id : FileId) (hsize : byteLength cs < UInt32.size) {offset' : Nat}
    (h : IsBoundary cs offset) (h' : IsBoundary cs offset')
    (heq : (ofChars id cs).position? offset = (ofChars id cs).position? offset') : offset = offset' := by
  have hoffset := min_eq_left h.le_byteLength
  have hoffset' := min_eq_left h'.le_byteLength
  cases hp : (ofChars id cs).position? offset with
  | none =>
    obtain ⟨hend, -⟩ := eq_of_position?_eq_none hsize (hoffset.symm ▸ h) hp
    obtain ⟨hend', -⟩ := eq_of_position?_eq_none hsize (hoffset'.symm ▸ h') (heq ▸ hp)
    omega
  | some p =>
    refine position_injective id h h' ?_
    rw [position_of_position? hsize h hp, position_of_position? hsize h' (heq ▸ hp)]

/-- **Positions** in a text whose size is a word of 32 bits are those that are counted in the text, also for offsets
past its end, which are taken as the end; where a count is no word there is no position. They go up with the offsets,
so that no two offsets between characters have one position. The search for a line by halves finds one for every
offset, also within a character. All positions are there if the size of the text has a next word. -/
theorem position_counts (id : FileId) (cs : List Char) (hsize : byteLength cs < UInt32.size) :
    (∀ before offset, before <+: cs → min offset (byteLength cs) = byteLength before → ∀ line column : UInt32,
      (ofChars id cs).position? offset = some (line, column) ↔
        line.toNat = lineAt before ∧ column.toNat = columnAt before) ∧
    (∀ offset offset', IsBoundary cs offset → IsBoundary cs offset' → offset < offset' →
      ∀ p p', (ofChars id cs).position? offset = some p → (ofChars id cs).position? offset' = some p' →
        Precedes (p.map UInt32.toNat UInt32.toNat) (p'.map UInt32.toNat UInt32.toNat)) ∧
    (∀ offset offset', IsBoundary cs offset → IsBoundary cs offset' →
      (ofChars id cs).position? offset = (ofChars id cs).position? offset' → offset = offset') ∧
    (∀ offset, ∃ index < (ofChars id cs).lines.length,
      bisect ((ofChars id cs).startsBy (min offset (ofChars id cs).size)) 0 (ofChars id cs).lines.length =
        index + 1 ∧ ((ofChars id cs).position offset).1 = index + 1) ∧
    (byteLength cs + 1 < UInt32.size → ∀ offset, IsBoundary cs (min offset (byteLength cs)) →
      ∃ p, (ofChars id cs).position? offset = some p) := by
  refine ⟨fun before offset h hoffset => position?_eq_some_iff id hsize h hoffset,
    fun offset offset' h h' hlt p p' hp hp' => ?_, fun offset offset' => position?_injective id hsize,
    bisect_startsBy id cs, fun hroom offset h => ?_⟩
  · rw [← position_of_position? hsize h hp, ← position_of_position? hsize h' hp']
    exact precedes_position id h h' hlt
  · refine Option.ne_none_iff_exists'.mp fun hnone => ?_
    exact absurd (eq_of_position?_eq_none hsize h hnone).2 (Nat.ne_of_lt hroom)

/-- A text with a wide character and an empty line. -/
def wideText : List Char :=
  "aé\n\nb".toList

/-- Behind the wide character comes the end of its line, and then the empty line; far behind the end is the end. -/
theorem wideText_positions : byteLength wideText < UInt32.size ∧
    (ofChars .root wideText).position? 99 = some (3, 2) ∧
    (∃ p p', (ofChars .root wideText).position? 3 = some p ∧ (ofChars .root wideText).position? 4 = some p' ∧
      Precedes (p.map UInt32.toNat UInt32.toNat) (p'.map UInt32.toNat UInt32.toNat)) ∧
    (ofChars .root wideText).position? 3 ≠ (ofChars .root wideText).position? 4 := by
  have hsize : byteLength wideText < UInt32.size := by decide
  obtain ⟨hcount, horder, hinjective, -, hsome⟩ := position_counts .root wideText hsize
  have h3 : IsBoundary wideText 3 := ⟨"aé".toList, by decide, by decide⟩
  have h4 : IsBoundary wideText 4 := ⟨"aé\n".toList, by decide, by decide⟩
  obtain ⟨p, hp⟩ := hsome (by decide) 3 h3
  obtain ⟨p', hp'⟩ := hsome (by decide) 4 h4
  refine ⟨hsize, (hcount wideText 99 (List.prefix_refl _) (by decide) 3 2).mpr ⟨by decide, by decide⟩,
    ⟨p, p', hp, hp', horder 3 4 h3 h4 (by decide) p p' hp hp'⟩, fun heq => ?_⟩
  exact absurd (hinjective 3 4 h3 h4 heq) (by decide)

/-- There is no column behind a line that is as long as a word can tell. -/
theorem position?_replicate (id : FileId) {n : Nat} (hn : n + 1 = UInt32.size) :
    byteLength (List.replicate n 'a') < UInt32.size ∧ IsBoundary (List.replicate n 'a') n ∧
      columnAt (List.replicate n 'a') = UInt32.size ∧ (ofChars id (List.replicate n 'a')).position? n = none := by
  have hbytes : byteLength (List.replicate n 'a') = n := byteLength_replicate n
  have hcolumn : columnAt (List.replicate n 'a') = UInt32.size := by
    rw [columnAt_of_not_mem (by simp), List.length_replicate, hn]
  have hsize : byteLength (List.replicate n 'a') < UInt32.size := by omega
  refine ⟨hsize, ⟨_, List.prefix_refl _, hbytes⟩, hcolumn, Option.eq_none_iff_forall_ne_some.mpr fun p hp => ?_⟩
  have hend := (position?_eq_some_iff id hsize (List.prefix_refl _) (by omega) p.1 p.2).mp hp
  exact absurd (hend.2.trans hcolumn) (Nat.ne_of_lt p.2.toNat_lt)

theorem longLine_stops : byteLength (List.replicate 4294967295 'a') < UInt32.size ∧
    IsBoundary (List.replicate 4294967295 'a') 4294967295 ∧
    columnAt (List.replicate 4294967295 'a') = UInt32.size ∧
    (ofChars .root (List.replicate 4294967295 'a')).position? 4294967295 = none :=
  position?_replicate .root (by decide)

/-- Within the wide character the bytes are counted, and the line is found as well. -/
example : (ofChars .root wideText).position 2 = (1, 3) := by
  decide

end Locator

end KconfigLang
