import KconfigLang.Proofs.Token.HelpExtent
import KconfigLang.Proofs.Token.Spelling

/-!
# Gaps

What may stand between two tokens, and where the next one starts.

- `GapPiece`, `gapChars`: white space, continued lines and comments, and how a run of them is written.
- `IsGap`: a run of pieces that the given text follows.
- `Lexeme.exists_gap`: a lexeme that is skipped is such a run.
- `Lexeme.extra_le`: every lexeme ends inside its text.
- `Cursor.next?_cases`: the next token or failure stands behind a gap and covers the whole lexeme there.
- `Cursor.next?_skip`: a gap in front of anything is skipped.
- `Cursor.next?_eq_none`: where nothing comes any more, all that is left is a gap.
-/

namespace KconfigLang

/-- A piece of text between tokens. -/
inductive GapPiece where
  /-- A white space character. -/
  | space (c : Char)
  /-- A backslash before the end of its line, with or without a carriage return. -/
  | continuation (withReturn : Bool)
  /-- A comment without the newline that ends it; the text behind its `#`. -/
  | comment (body : List Char)
  deriving DecidableEq, Repr

/-- How a piece is written. -/
def GapPiece.chars : GapPiece → List Char
  | space c => [c]
  | continuation false => ['\\', '\n']
  | continuation true => ['\\', '\r', '\n']
  | comment body => '#' :: body

/-- How some pieces are written. -/
def gapChars (ps : List GapPiece) : List Char :=
  ps.flatMap GapPiece.chars

@[simp] theorem gapChars_nil : gapChars [] = [] := rfl

@[simp] theorem gapChars_cons (p : GapPiece) (ps : List GapPiece) :
    gapChars (p :: ps) = p.chars ++ gapChars ps := rfl

@[simp] theorem gapChars_append (ps qs : List GapPiece) :
    gapChars (ps ++ qs) = gapChars ps ++ gapChars qs :=
  List.flatMap_append

theorem gapChars_map_space (cs : List Char) : gapChars (cs.map .space) = cs := by
  induction cs with
  | nil => rfl
  | cons c cs ih => rw [List.map_cons, gapChars_cons, ih]; rfl

/-- Some pieces that `rest` follows: spaces are white space, and a comment runs to the end of its line. -/
def IsGap : List GapPiece → List Char → Prop
  | [], _ => True
  | .space c :: ps, rest => Lexeme.isSpace c = true ∧ IsGap ps rest
  | .continuation _ :: ps, rest => IsGap ps rest
  | .comment body :: ps, rest => '\n' ∉ body ∧ AtLineEnd (gapChars ps ++ rest) ∧ IsGap ps rest

theorem isGap_map_space {cs rest : List Char} (h : ∀ c ∈ cs, Lexeme.isSpace c = true) :
    IsGap (cs.map .space) rest := by
  induction cs with
  | nil => trivial
  | cons c cs ih =>
    obtain ⟨hc, hcs⟩ := List.forall_mem_cons.mp h
    exact ⟨hc, ih hcs⟩

/-- Gaps that stand one behind the other are one gap. -/
theorem IsGap.append {ps qs : List GapPiece} {rest : List Char} (hps : IsGap ps (gapChars qs ++ rest))
    (hqs : IsGap qs rest) : IsGap (ps ++ qs) rest := by
  induction ps with
  | nil => exact hqs
  | cons p ps ih =>
    cases p with
    | space c => exact ⟨hps.1, ih hps.2⟩
    | continuation r => exact ih hps
    | comment body =>
      obtain ⟨hbody, hend, hmore⟩ := hps
      refine ⟨hbody, ?_, ih hmore⟩
      show AtLineEnd (gapChars (ps ++ qs) ++ rest)
      rwa [gapChars_append, List.append_assoc]

/-! ## Lexemes -/

namespace Lexeme

theorem help_kind (extra : Nat) (cs : List Char) : (help extra cs).kind ≠ .gap :=
  fun h => LexemeKind.noConfusion h

theorem word_kind (c : Char) (cs : List Char) : (word c cs).kind ≠ .gap := by
  unfold word
  simp only
  split
  · exact help_kind _ _
  · exact fun h => LexemeKind.noConfusion h

theorem decimal_kind (value : Int) (extra : Nat) : (decimal value extra).kind ≠ .gap := by
  unfold decimal
  split <;> exact fun h => LexemeKind.noConfusion h

theorem hexadecimal_kind (value extra : Nat) : (hexadecimal value extra).kind ≠ .gap := by
  unfold hexadecimal
  split <;> exact fun h => LexemeKind.noConfusion h

theorem number_kind (c : Char) (cs : List Char) : (number c cs).kind ≠ .gap := by
  unfold number
  simp only
  split <;> split
  all_goals first | exact decimal_kind _ _ | exact hexadecimal_kind _ _

theorem dash_kind (cs : List Char) : (dash cs).kind ≠ .gap := by
  unfold dash
  simp only
  split
  · exact decimal_kind _ _
  · split
    · exact help_kind _ _
    · exact fun h => LexemeKind.noConfusion h

theorem string_kind (cs : List Char) : (string cs).kind ≠ .gap := by
  unfold string
  split
  · exact fun h => LexemeKind.noConfusion h
  · simp only
    split <;> exact fun h => LexemeKind.noConfusion h

theorem mark_kind (c : Char) (cs : List Char) : (mark c cs).kind ≠ .gap := by
  unfold mark
  split <;> exact fun h => LexemeKind.noConfusion h

theorem exists_gap_of_backslash {cs : List Char} (h : (backslash cs).kind = .gap) :
    ∃ p : GapPiece, '\\' :: cs.take (backslash cs).extra = gapChars [p] ∧ ∀ rest, IsGap [p] rest := by
  unfold backslash at h ⊢
  split at h
  · exact ⟨.continuation false, rfl, fun _ => trivial⟩
  · exact ⟨.continuation true, rfl, fun _ => trivial⟩
  · exact absurd h fun h => LexemeKind.noConfusion h
  · exact absurd h fun h => LexemeKind.noConfusion h

/-- A lexeme that is skipped is a gap. -/
theorem exists_gap {c : Char} {cs : List Char} (h : (read c cs).kind = .gap) :
    ∃ ps, c :: cs.take (read c cs).extra = gapChars ps ∧ IsGap ps (cs.drop (read c cs).extra) := by
  have htake (p : Char → Bool) : cs.take (cs.takeWhile p).length = cs.takeWhile p :=
    (List.prefix_iff_eq_take.mp (List.takeWhile_prefix p)).symm
  unfold read at h ⊢
  split at h
  · rename_i hspace
    rw [if_pos hspace]
    refine ⟨(c :: cs.takeWhile isSpace).map .space, ?_, isGap_map_space ?_⟩
    · rw [gapChars_map_space]
      exact congrArg (c :: ·) (htake _)
    · exact List.forall_mem_cons.mpr ⟨hspace, fun d hd => List.mem_takeWhile_imp hd⟩
  rename_i hspace
  split at h
  · rename_i hc
    rw [if_neg hspace, if_pos hc]
    obtain ⟨p, hp, hgap⟩ := exists_gap_of_backslash h
    exact ⟨[p], hc ▸ hp, hgap _⟩
  rename_i hbackslash
  split at h
  · rename_i hc
    rw [if_neg hspace, if_neg hbackslash, if_pos hc]
    refine ⟨[.comment (cs.takeWhile (· ≠ '\n'))], ?_, ?_, ?_, trivial⟩
    · rw [htake, hc]
      exact (List.append_nil _).symm
    · intro hmem
      simpa using List.mem_takeWhile_imp hmem
    · have hdrop := atLineEnd_dropWhile cs
      rw [← drop_length_takeWhile] at hdrop
      exact hdrop
  split at h
  · exact absurd h (word_kind _ _)
  split at h
  · exact absurd h (number_kind _ _)
  split at h
  · exact absurd h (dash_kind _)
  split at h
  · exact absurd h (string_kind _)
  · exact absurd h (mark_kind _ _)

/-! ### How far lexemes reach -/

theorem help_extra_le {extra : Nat} {cs : List Char} (h : extra ≤ cs.length) :
    (help extra cs).extra ≤ cs.length := by
  obtain ⟨taken, more, hsplit, hlength, -⟩ := HelpBlock.read_extent (cs.drop extra)
  have hcs : (cs.drop extra).length = taken.length + more.length := by rw [hsplit, List.length_append]
  rw [List.length_drop] at hcs
  show extra + (HelpBlock.read (cs.drop extra)).extent ≤ cs.length
  omega

theorem word_extra_le (c : Char) (cs : List Char) : (word c cs).extra ≤ cs.length := by
  have hmore : (cs.takeWhile isWordChar).length ≤ cs.length := (List.takeWhile_prefix _).length_le
  unfold word
  simp only
  split
  · exact help_extra_le hmore
  · exact hmore

theorem decimal_extra (value : Int) (extra : Nat) : (decimal value extra).extra = extra := by
  unfold decimal
  split <;> rfl

theorem hexadecimal_extra (value extra : Nat) : (hexadecimal value extra).extra = extra := by
  unfold hexadecimal
  split <;> rfl

theorem number_extra_le (c : Char) (cs : List Char) : (number c cs).extra ≤ cs.length := by
  have htake (p : Char → Bool) (ds : List Char) : (ds.takeWhile p).length ≤ ds.length :=
    (List.takeWhile_prefix p).length_le
  unfold number
  simp only
  split <;> split
  · rw [decimal_extra]
    exact htake _ _
  · rw [hexadecimal_extra]
    exact Nat.succ_le_succ (htake _ _)
  · rw [decimal_extra]
    exact htake _ _
  · rename_i hempty
    exact absurd rfl hempty

theorem commonLead_le (as bs : List Char) : Text.commonLead as bs ≤ bs.length := by
  fun_induction Text.commonLead as bs with
  | case1 a as bs ih => exact Nat.succ_le_succ ih
  | case2 => exact Nat.zero_le _
  | case3 => exact Nat.zero_le _

theorem dash_extra_le (cs : List Char) : (dash cs).extra ≤ cs.length := by
  unfold dash
  simp only
  split
  · rw [decimal_extra]
    exact (List.takeWhile_prefix _).length_le
  · split
    · rename_i keyword hfind
      have hfound := List.find?_some hfind
      exact help_extra_le (List.isPrefixOf_iff_prefix.mp hfound).length_le
    · have h1 := commonLead_le "-help--".toList cs
      have h2 := commonLead_le "--help---".toList cs
      exact Nat.max_le.mpr ⟨Nat.max_le.mpr ⟨Nat.zero_le _, h1⟩, h2⟩

theorem string_extra_le (cs : List Char) : (string cs).extra ≤ cs.length := by
  unfold string
  split
  · exact (List.takeWhile_prefix _).length_le
  · rename_i n hn
    have hle := (Literal.literalLength?_take_append hn).1
    simp only
    split <;> exact hle

theorem mark_extra_le (c : Char) (cs : List Char) : (mark c cs).extra ≤ cs.length := by
  unfold mark
  split <;> simp

theorem backslash_extra_le (cs : List Char) : (backslash cs).extra ≤ cs.length := by
  unfold backslash
  split <;> simp

/-- Every lexeme ends inside its text. -/
theorem extra_le (c : Char) (cs : List Char) : (read c cs).extra ≤ cs.length := by
  unfold read
  split
  · exact (List.takeWhile_prefix _).length_le
  split
  · exact backslash_extra_le cs
  split
  · exact (List.takeWhile_prefix _).length_le
  split
  · exact word_extra_le c cs
  split
  · exact number_extra_le c cs
  split
  · exact dash_extra_le cs
  split
  · exact string_extra_le cs
  · exact mark_extra_le c cs

end Lexeme

/-! ## Cursors -/

namespace Cursor

/-- The cursor behind a gap that `rest` follows. -/
def skip (cur : Cursor) (ps : List GapPiece) (rest : List Char) : Cursor :=
  ⟨rest, cur.offset + Text.byteLength (gapChars ps), cur.gap.map (· ++ gapChars ps)⟩

theorem skip_nil (cur : Cursor) : cur.skip [] cur.rest = cur := by
  obtain ⟨rest, offset, gap⟩ := cur
  cases gap <;> simp [skip]

theorem skip_skip (cur : Cursor) (ps qs : List GapPiece) (rest more : List Char) :
    (cur.skip ps rest).skip qs more = cur.skip (ps ++ qs) more := by
  obtain ⟨-, offset, gap⟩ := cur
  cases gap <;> simp [skip, Nat.add_assoc]

/-- To skip a lexeme is to skip a gap. -/
theorem advance_eq_skip {cur : Cursor} {c : Char} {cs : List Char} {extra : Nat} {ps : List GapPiece}
    (h : c :: cs.take extra = gapChars ps) : cur.advance c cs extra = cur.skip ps (cs.drop extra) := by
  rw [advance, skip, h]

/-- The next item stands behind a gap, and starts with the lexeme there. -/
theorem next?_eq_some {cur after : Cursor} {item : StreamItem} (h : cur.next? = some (item, after)) :
    ∃ ps c cs, cur.rest = gapChars ps ++ c :: cs ∧ IsGap ps (c :: cs) ∧
      (Lexeme.read c cs).kind ≠ .gap ∧ (cur.skip ps (c :: cs)).next? = some (item, after) := by
  have hhere {cur : Cursor} {c : Char} {cs : List Char} (hrest : cur.rest = c :: cs)
      (hkind : (Lexeme.read c cs).kind ≠ .gap) (h : cur.next? = some (item, after)) :
      ∃ ps c cs, cur.rest = gapChars ps ++ c :: cs ∧ IsGap ps (c :: cs) ∧
        (Lexeme.read c cs).kind ≠ .gap ∧ (cur.skip ps (c :: cs)).next? = some (item, after) :=
    ⟨[], c, cs, hrest, trivial, hkind, by rw [← hrest, skip_nil]; exact h⟩
  fun_induction next? cur with
  | case1 => exact absurd h (Option.some_ne_none _).symm
  | case2 cur c cs hrest lexeme next hkind ih =>
    obtain ⟨ps, hps, hgap⟩ := Lexeme.exists_gap hkind
    have hnext : next = cur.skip ps (cs.drop lexeme.extra) := advance_eq_skip hps
    obtain ⟨qs, d, ds, hmore, hgap', hread, hitem⟩ := ih h
    have hdrop : cs.drop lexeme.extra = gapChars qs ++ d :: ds := by rw [← hmore, hnext]; rfl
    refine ⟨ps ++ qs, d, ds, ?_, IsGap.append (hdrop ▸ hgap) hgap', hread, ?_⟩
    · rw [gapChars_append, ← hps, List.append_assoc, ← hdrop, List.cons_append, List.take_append_drop,
        hrest]
    · rw [← hitem, hnext, skip_skip]
  | case3 cur c cs hrest lexeme next t hkind =>
    refine hhere hrest (fun hgap => LexemeKind.noConfusion (hkind.symm.trans hgap)) ?_
    rw [next?_of_cons hrest, ← h]
    simp only [lexeme] at hkind
    simp only [hkind]
    rfl
  | case4 cur c cs hrest lexeme next cause hkind =>
    refine hhere hrest (fun hgap => LexemeKind.noConfusion (hkind.symm.trans hgap)) ?_
    rw [next?_of_cons hrest, ← h]
    simp only [lexeme] at hkind
    simp only [hkind]
    rfl

/-- What the next item is and where: it stands behind a gap, covers the whole lexeme there, and is a token or a
failure as that lexeme is. -/
theorem next?_cases {cur after : Cursor} {item : StreamItem} (h : cur.next? = some (item, after)) :
    ∃ ps taken, cur.rest = gapChars ps ++ (item.head :: taken ++ after.rest) ∧
      IsGap ps (item.head :: taken ++ after.rest) ∧
      (Lexeme.read item.head (taken ++ after.rest)).extra = taken.length ∧
      item.start = cur.offset + Text.byteLength (gapChars ps) ∧
      item.stop = item.start + Text.byteLength (item.head :: taken) ∧ after.offset = item.stop ∧
      ((∃ t, (Lexeme.read item.head (taken ++ after.rest)).kind = .token t ∧
          item.content = .ok ((cur.skip ps (item.head :: taken ++ after.rest)).settle t) ∧
          after.gap = some []) ∨
        ∃ cause, (Lexeme.read item.head (taken ++ after.rest)).kind = .failure cause ∧
          item.content = .error cause) := by
  obtain ⟨ps, c, cs, hrest, hgap, hkind, hnext⟩ := next?_eq_some h
  have hsplit : cs.take (Lexeme.read c cs).extra ++ cs.drop (Lexeme.read c cs).extra = cs :=
    List.take_append_drop _ cs
  have hlength : (cs.take (Lexeme.read c cs).extra).length = (Lexeme.read c cs).extra :=
    List.length_take_of_le (Lexeme.extra_le c cs)
  rw [next?_of_cons rfl] at hnext
  refine ⟨ps, cs.take (Lexeme.read c cs).extra, ?_⟩
  cases hread : (Lexeme.read c cs).kind with
  | gap => exact absurd hread hkind
  | token t =>
    simp only [hread] at hnext
    obtain ⟨rfl, rfl⟩ := Prod.mk.inj (Option.some.inj hnext)
    simp only [advance, skip, List.cons_append, hsplit, hlength, hrest]
    exact ⟨trivial, hgap, trivial, trivial, trivial, trivial, .inl ⟨t, hread, rfl, trivial⟩⟩
  | failure cause =>
    simp only [hread] at hnext
    obtain ⟨rfl, rfl⟩ := Prod.mk.inj (Option.some.inj hnext)
    simp only [advance, skip, List.cons_append, hsplit, hlength, hrest]
    exact ⟨trivial, hgap, trivial, trivial, trivial, trivial, .inr ⟨cause, hread, rfl⟩⟩

theorem exists_next?_of_items {cur : Cursor} {item : StreamItem} {items : List StreamItem}
    (h : cur.items = item :: items) : ∃ after, cur.next? = some (item, after) ∧ after.items = items := by
  rw [Cursor.items] at h
  split at h
  · exact absurd h (List.cons_ne_nil _ _).symm
  · rename_i item' after hnext
    obtain ⟨rfl, rfl⟩ := List.cons.inj h
    exact ⟨after, hnext, rfl⟩

/-- Where no item comes any more, all that is left is a gap. -/
theorem next?_eq_none {cur : Cursor} (h : cur.next? = none) :
    ∃ ps, cur.rest = gapChars ps ∧ IsGap ps [] := by
  fun_induction next? cur with
  | case1 cur hrest => exact ⟨[], hrest, trivial⟩
  | case2 cur c cs hrest lexeme next hkind ih =>
    obtain ⟨ps, hps, hgap⟩ := Lexeme.exists_gap hkind
    obtain ⟨qs, hmore, hgap'⟩ := ih h
    have hdrop : cs.drop lexeme.extra = gapChars qs := hmore
    refine ⟨ps ++ qs, ?_, IsGap.append ?_ hgap'⟩
    · rw [gapChars_append, ← hps, ← hdrop, List.cons_append, List.take_append_drop, hrest]
    · rw [List.append_nil, ← hdrop]
      exact hgap
  | case3 => exact absurd h (Option.some_ne_none _)
  | case4 => exact absurd h (Option.some_ne_none _)

section Skip

variable {cur : Cursor} {c : Char} {cs rest : List Char}

theorem next?_of_gap (hrest : cur.rest = c :: cs) (hkind : (Lexeme.read c cs).kind = .gap) :
    cur.next? = (cur.advance c cs (Lexeme.read c cs).extra).next? := by
  rw [next?_of_cons hrest]
  simp only [hkind]

/-- To skip a run of white space is to skip its first character first. -/
theorem next?_space (hrest : cur.rest = c :: rest) (hc : Lexeme.isSpace c = true) :
    cur.next? = (cur.skip [.space c] rest).next? := by
  have hread {d : Char} (ds : List Char) (hd : Lexeme.isSpace d = true) :
      Lexeme.read d ds = ⟨.gap, (ds.takeWhile Lexeme.isSpace).length⟩ := if_pos hd
  have hadvance (cur : Cursor) (d : Char) (ds : List Char) (n : Nat) :
      cur.advance d ds n = cur.skip ((d :: ds.take n).map .space) (ds.drop n) :=
    advance_eq_skip (gapChars_map_space _).symm
  rw [next?_of_gap hrest (by rw [hread _ hc]), hread _ hc]
  cases rest with
  | nil => rfl
  | cons d ds =>
    by_cases hd : Lexeme.isSpace d = true
    · have hrest' : (cur.skip [.space c] (d :: ds)).rest = d :: ds := rfl
      rw [next?_of_gap hrest' (by rw [hread _ hd]), hread _ hd, hadvance, hadvance, skip_skip,
        List.takeWhile_cons_of_pos hd]
      rfl
    · rw [List.takeWhile_cons_of_neg hd]
      rfl

theorem next?_comment {body : List Char} (hrest : cur.rest = '#' :: (body ++ rest)) (hbody : '\n' ∉ body)
    (hend : AtLineEnd rest) : cur.next? = (cur.skip [.comment body] rest).next? := by
  have hline : (body ++ rest).takeWhile (· ≠ '\n') = body := by
    rw [List.takeWhile_append_of_pos fun c hc => by simpa using ne_of_mem_of_not_mem hc hbody]
    cases rest with
    | nil => simp
    | cons c rest => rw [hend c rfl, List.takeWhile_cons_of_neg (by decide), List.append_nil]
  have hread : Lexeme.read '#' (body ++ rest) = ⟨.gap, body.length⟩ := by
    show Lexeme.mk .gap ((body ++ rest).takeWhile (· ≠ '\n')).length = _
    rw [hline]
  have hpiece : '#' :: (body ++ rest).take body.length = gapChars [.comment body] := by simp [GapPiece.chars]
  rw [next?_of_gap hrest (by rw [hread]), hread, advance_eq_skip hpiece, List.drop_left]

/-- A gap in front of anything is skipped. -/
theorem next?_skip {ps : List GapPiece} (hrest : cur.rest = gapChars ps ++ rest) (hgap : IsGap ps rest) :
    cur.next? = (cur.skip ps rest).next? := by
  induction ps generalizing cur with
  | nil =>
    obtain rfl : cur.rest = rest := hrest
    rw [skip_nil]
  | cons p ps ih =>
    have hmore : IsGap ps rest := by
      cases p with
      | space c => exact hgap.2
      | continuation r => exact hgap
      | comment body => exact hgap.2.2
    have hfirst : cur.next? = (cur.skip [p] (gapChars ps ++ rest)).next? := by
      cases p with
      | space c => exact next?_space hrest hgap.1
      | continuation r => cases r <;> exact next?_of_gap hrest rfl
      | comment body => exact next?_comment (by rw [hrest]; simp [GapPiece.chars]) hgap.1 hgap.2.1
    rw [hfirst, ih rfl hmore, skip_skip]
    rfl

end Skip

end Cursor

end KconfigLang
