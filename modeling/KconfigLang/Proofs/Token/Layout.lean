import KconfigLang.Proofs.Token.LineStart

/-!
# Laying out tokens

Tokens of some text, taken up to anywhere and followed by others, are the tokens of another text: one in which
every token is written on a line of its own, apart from an `if` that goes on with a line.

- `LineWise`: no `if` goes on with a line where none can be.
- `lineWise_of_tokenize`: so it is in every text.
- `Lexeme.exists_of_read_help`: a help token is read from a keyword and the block behind it.
- `Writes`: some characters are read as a token, before what a layout puts behind it.
- `exists_writes`: every token of a text can be written.
- `layout`: tokens with their spellings, as a text.
- `exists_text`: a list of such tokens is the token list of a text.
-/

namespace KconfigLang

/-! ## Where an `if` goes on with a line -/

/-- Whether a token may stand behind another one, or be the first: an `if` that goes on with a line may neither
be the first nor stand behind a help block, which takes its lines to their end. -/
def MayFollow (prev : Option Token) (t : Token) : Prop :=
  t = .keyword .ifCondition → ∃ u ∈ prev, ∀ body, u ≠ .help body

/-- Every token may stand where it stands; `prev` is the token before them. -/
def LineWise (prev : Option Token) : List Token → Prop
  | [] => True
  | t :: ts => MayFollow prev t ∧ LineWise (some t) ts

theorem lineWise_append {prev : Option Token} {ts us : List Token} :
    LineWise prev (ts ++ us) ↔ LineWise prev ts ∧ LineWise (ts.getLast?.or prev) us := by
  induction ts generalizing prev with
  | nil => simp [LineWise]
  | cons t ts ih =>
    have hlast : (t :: ts).getLast?.or prev = ts.getLast?.or (some t) := by
      rw [List.getLast?_cons]
      cases ts.getLast? <;> rfl
    rw [List.cons_append, LineWise, LineWise, ih, hlast, and_assoc]

theorem lineWise_of_forall_ne {ts : List Token} (h : ∀ t ∈ ts, t ≠ .keyword .ifCondition)
    (prev : Option Token) : LineWise prev ts := by
  induction ts generalizing prev with
  | nil => trivial
  | cons t ts ih =>
    obtain ⟨ht, hts⟩ := List.forall_mem_cons.mp h
    exact ⟨fun heq => absurd heq ht, ih hts _⟩

namespace Lexeme

/-- The spellings of the help keyword. -/
def helps : List (List Char) :=
  ["help".toList, "--help--".toList, "---help---".toList]

theorem cons_mem_helps : ∀ keyword ∈ dashedHelps, '-' :: keyword ∈ helps := by
  decide

theorem exists_of_help {keyword cs : List Char} {c : Char} {extra : Nat} {body : String}
    (hkeyword : c :: keyword ∈ helps) (hlead : keyword <+: cs)
    (h : help keyword.length cs = ⟨.token (.help body), extra⟩) :
    ∃ keyword ∈ helps, ∃ rest, c :: cs = keyword ++ rest ∧ (HelpBlock.read rest).body = body ∧
      keyword.length + (HelpBlock.read rest).extent = extra + 1 := by
  obtain ⟨rest, rfl⟩ := hlead
  rw [help, List.drop_left] at h
  obtain ⟨hkind, hextra⟩ := Lexeme.mk.inj h
  refine ⟨c :: keyword, hkeyword, rest, rfl, Token.help.inj (LexemeKind.token.inj hkind), ?_⟩
  rw [List.length_cons]
  omega

/-- A help token is read from a keyword and the body behind it. -/
theorem exists_of_read_help {c : Char} {cs : List Char} {extra : Nat} {body : String}
    (h : read c cs = ⟨.token (.help body), extra⟩) :
    ∃ keyword ∈ helps, ∃ rest, c :: cs = keyword ++ rest ∧ (HelpBlock.read rest).body = body ∧
      keyword.length + (HelpBlock.read rest).extent = extra + 1 := by
  rcases read_token_cases h with ⟨-, h⟩ | ⟨-, h⟩ | ⟨hc, h⟩ | ⟨-, h⟩ | h
  · unfold word at h
    simp only at h
    split at h
    · rename_i hword
      have hchars : c :: cs.takeWhile isWordChar = "help".toList := by
        rw [← hword, String.toList_ofList]
      exact exists_of_help (hchars ▸ List.mem_cons_self) (List.takeWhile_prefix _) h
    · have htoken := LexemeKind.token.inj (Lexeme.mk.inj h).1
      unfold Token.ofWord at htoken
      split at htoken <;> cases htoken
  · unfold number decimal hexadecimal at h
    simp only at h
    split at h <;> split at h <;> split at h <;> cases h
  · unfold dash decimal at h
    simp only at h
    split at h
    · split at h <;> cases h
    · split at h
      · rename_i keyword hfind
        have hmem : c :: keyword ∈ helps := hc ▸ cons_mem_helps keyword (List.mem_of_find?_eq_some hfind)
        have hlead := List.find?_some hfind
        exact exists_of_help hmem (List.isPrefixOf_iff_prefix.mp hlead) h
      · cases h
  · unfold string at h
    split at h
    · cases h
    · simp only at h
      split at h <;> cases h
  · unfold mark at h
    split at h <;> cases h

/-- A help block takes its lines to their end. -/
theorem atLineEnd_of_read {c : Char} {taken rest : List Char} {body : String}
    (h : read c (taken ++ rest) = ⟨.token (.help body), taken.length⟩) : AtLineEnd rest := by
  obtain ⟨keyword, -, text, hsplit, -, hlength⟩ := exists_of_read_help h
  obtain ⟨block, more, rfl, hblock, hmore⟩ := HelpBlock.read_extent text
  have htext : (c :: taken) ++ rest = (keyword ++ block) ++ more := by
    rw [List.cons_append, hsplit, List.append_assoc]
  have hrest : rest = more := by
    refine (List.append_inj htext ?_).2
    rw [List.length_append, List.length_cons]
    omega
  exact hrest ▸ hmore

/-- A help keyword at the end of its line is read with the body behind it. -/
theorem read_help {rest : List Char} (h : AtLineEnd rest) : read 'h' ("elp".toList ++ rest) =
    ⟨.token (.help (HelpBlock.read rest).body), "elp".toList.length + (HelpBlock.read rest).extent⟩ := by
  have hword : ("elp".toList ++ rest).takeWhile isWordChar = "elp".toList := by
    rw [List.takeWhile_append_of_pos (List.all_eq_true.mp (by decide))]
    cases rest with
    | nil => rfl
    | cons c rest =>
      obtain rfl : c = '\n' := h c rfl
      rfl
  rw [read_letter (by decide), word, hword, if_pos (by decide), help, List.drop_left]

end Lexeme

namespace Cursor

/-- A cursor at the start of a text or right behind the token `prev`. -/
structure IsBehind (prev : Option Token) (cur : Cursor) : Prop where
  gap : cur.gap = prev.map fun _ => []
  lineEnd : ∀ body, prev = some (.help body) → AtLineEnd cur.rest

theorem settle_eq_of_ne {cur : Cursor} {t : Token} (h : t ≠ .keyword .ifCondition) : cur.settle t = t := by
  unfold settle
  split
  · exact absurd rfl h
  · rfl

/-- Of the tokens only an `if` may change when it is seen where it stands. -/
theorem eq_of_settle {cur : Cursor} {t u : Token} (h : cur.settle u = t) (hcondition : t ≠ .keyword .ifCondition)
    (hblock : t ≠ .keyword .ifBlock) : u = t := by
  by_cases hu : u = .keyword .ifCondition
  · subst hu
    unfold settle at h
    simp only at h
    split at h
    · exact absurd h.symm hblock
    · exact absurd h.symm hcondition
  · rwa [settle_eq_of_ne hu] at h

/-- A gap that begins at the end of a line breaks the line. -/
theorem breaksLine_of_atLineEnd {ps : List GapPiece} {rest : List Char}
    (h : AtLineEnd (gapChars ps ++ 'i' :: rest)) : breaksLine false ps = true := by
  cases ps with
  | nil => exact absurd (h 'i' rfl) (by decide)
  | cons p ps =>
    cases p with
    | space c =>
      obtain rfl : c = '\n' := h c rfl
      rfl
    | continuation r =>
      refine absurd (h '\\' ?_) (by decide)
      cases r <;> rfl
    | comment body => exact absurd (h '#' rfl) (by decide)

/-- The next token may stand behind the one before it, and the cursor goes behind it. -/
theorem IsBehind.next {prev : Option Token} {cur after : Cursor} {item : StreamItem} {t : Token}
    (h : cur.IsBehind prev) (hnext : cur.next? = some (item, after)) (ht : item.content = .ok t) :
    MayFollow prev t ∧ after.IsBehind (some t) := by
  have hcur : cur.gap = none ∨ cur.gap = some [] := by
    rw [h.gap]
    cases prev with
    | none => exact .inl rfl
    | some u => exact .inr rfl
  constructor
  · rintro rfl
    obtain ⟨ps, rest, hrest, -, -, hiff⟩ := ifBlock_iff_of_next? hcur hnext ht (.inr rfl)
    -- Were it the first or behind a help block, it would open a block.
    have hline : ¬ (cur.gap = none ∨ breaksLine false ps = true) := fun hline => nomatch hiff.mpr hline
    cases prev with
    | none => exact absurd (.inl h.gap) hline
    | some u =>
      refine ⟨u, rfl, ?_⟩
      rintro body rfl
      have hend := h.lineEnd body rfl
      rw [hrest] at hend
      exact hline (.inr (breaksLine_of_atLineEnd hend))
  · obtain ⟨ps, taken, -, -, hextra, -, -, -, ⟨u, hkind, hcontent, hgap⟩ | ⟨cause, -, hcontent⟩⟩ :=
      next?_cases hnext
    · refine ⟨hgap, fun body hbody => ?_⟩
      obtain rfl : t = .help body := Option.some.inj hbody
      have hsettle := Except.ok.inj (ht.symm.trans hcontent)
      obtain rfl : u = .help body := eq_of_settle hsettle.symm nofun nofun
      have hread : Lexeme.read item.head (taken ++ after.rest) = ⟨.token (.help body), taken.length⟩ := by
        rw [← hkind, ← hextra]
      exact Lexeme.atLineEnd_of_read hread
    · exact nomatch ht.symm.trans hcontent

theorem IsBehind.lineWise {loc : Locator} {prev : Option Token} {cur : Cursor} {ts : List Lexed}
    (h : cur.IsBehind prev) (hts : List.Forall₂ (fun item t => item.locate loc = .ok t) cur.items ts) :
    LineWise prev (ts.map Lexed.token) := by
  induction ts generalizing prev cur with
  | nil => trivial
  | cons t ts ih =>
    obtain ⟨item, items, hlocate, hmore, hitems⟩ := List.forall₂_cons_right_iff.mp hts
    obtain ⟨after, hnext, rfl⟩ := exists_next?_of_items hitems
    obtain ⟨hcontent, -⟩ := StreamItem.locate_eq_ok_iff.mp hlocate
    obtain ⟨hfollow, hafter⟩ := h.next hnext hcontent
    exact ⟨hfollow, ih hafter hmore⟩

end Cursor

/-- In a text every token may stand where it stands. -/
theorem lineWise_of_tokenize {loc : Locator} {cs : List Char} {ts : List Lexed}
    (h : tokenize loc cs = .ok ts) : LineWise none (ts.map Lexed.token) :=
  Cursor.IsBehind.lineWise ⟨rfl, fun _ h => nomatch h⟩ (tokenize_eq_ok_iff.mp h)

/-! ## Spellings -/

/-- What a layout puts behind a token: a help block ends where a line that is not indented follows, any other
token before a space. -/
def MayPrecede (t : Token) (rest : List Char) : Prop :=
  match t with
  | .help _ => HelpBlock.EndsBody rest
  | _ => Spaced rest

/-- A token as its lexeme alone tells it: an `if` is not known to open a block. -/
def lexemeToken : Token → Token
  | .keyword .ifBlock => .keyword .ifCondition
  | t => t

/-- Some characters are read as a token, before what a layout puts behind it. -/
def Writes (cs : List Char) (t : Token) : Prop :=
  ∃ c ds, cs = c :: ds ∧ Text.isWhiteSpace c = false ∧
    ∀ rest, MayPrecede t rest → Lexeme.read c (ds ++ rest) = ⟨.token (lexemeToken t), ds.length⟩

theorem not_white_of_alphanum {c : Char} (h : c.isAlphanum = true) : Text.isWhiteSpace c = false := by
  refine Bool.eq_false_iff.mpr fun hwhite => ?_
  have hranges : (decide (c.val ≥ 'A'.val ∧ c.val ≤ 'Z'.val) ||
      decide (c.val ≥ 'a'.val) && decide (c.val ≤ 'z'.val) ||
      decide (c.val ≥ '0'.val) && decide (c.val ≤ '9'.val)) = true := h
  have hletter : 48 ≤ c.toNat ∧ c.toNat ≤ 57 ∨ 65 ≤ c.toNat ∧ c.toNat ≤ 90 ∨ 97 ≤ c.toNat ∧ c.toNat ≤ 122 := by
    simp only [Bool.or_eq_true, Bool.and_eq_true, decide_eq_true_eq, UInt32.le_iff_toNat_le,
      ge_iff_le] at hranges
    rcases hranges with (h | h) | h
    · exact .inr (.inl h)
    · exact .inr (.inr h)
    · exact .inl h
  simp only [Text.isWhiteSpace, Text.inRanges, Text.whiteSpaceRanges, List.any_cons, List.any_nil,
    Bool.or_eq_true, Bool.and_eq_true, decide_eq_true_eq, Bool.or_false] at hwhite
  omega

/-- A token does not begin with white space. -/
theorem not_white_of_read {c : Char} {cs : List Char} {t : Token} {extra : Nat}
    (h : Lexeme.read c cs = ⟨.token t, extra⟩) : Text.isWhiteSpace c = false := by
  rcases Lexeme.read_token_cases h with ⟨hc, -⟩ | ⟨hc, -⟩ | ⟨rfl, -⟩ | ⟨rfl, -⟩ | h
  · exact not_white_of_alphanum (by simp [Char.isAlphanum, hc])
  · exact not_white_of_alphanum (by simp [Char.isAlphanum, hc])
  · decide
  · decide
  · unfold Lexeme.mark at h
    split at h
    all_goals first | decide | cases h

theorem Spells.writes {cs : List Char} {t : Token} (h : Spells cs (lexemeToken t))
    (ht : ∀ body, t ≠ .help body) : Writes cs t := by
  obtain ⟨c, ds, rfl, hread⟩ := h
  refine ⟨c, ds, rfl, not_white_of_read (hread [] fun _ h => absurd h (Option.not_mem_none _)), ?_⟩
  intro rest hrest
  refine hread rest ?_
  cases t with
  | help body => exact absurd rfl (ht body)
  | _ => exact hrest

/-- A keyword is written as its text. -/
theorem writes_keyword (k : Keyword) : Writes k.text.toList (.keyword k) := by
  refine Spells.writes ?_ nofun
  cases k
  all_goals exact spells_word (by decide) (List.all_eq_true.mp (by decide)) (by decide)

/-- A help block is written as the keyword and the lines of its body. -/
theorem exists_writes_help (text : List Char) : ∃ cs, Writes cs (.help (HelpBlock.read text).body) := by
  obtain ⟨cs, hcs, hread⟩ := HelpBlock.exists_lines text
  refine ⟨'h' :: ("elp".toList ++ cs), 'h', "elp".toList ++ cs, rfl, by decide, fun rest hrest => ?_⟩
  have hend : AtLineEnd (cs ++ rest) := by
    cases cs with
    | nil => exact hrest.atLineEnd
    | cons c cs => exact hcs
  rw [List.append_assoc, Lexeme.read_help hend, hread rest hrest, List.length_append]
  rfl

/-- Every token of a text can be written. -/
theorem exists_writes {t : Token} (h : t.Readable) : ∃ cs, Writes cs t := by
  cases t with
  | keyword k => exact ⟨_, writes_keyword k⟩
  | help body =>
    obtain ⟨text, rfl⟩ := h
    exact exists_writes_help text
  | mark m => exact ⟨_, (spells_mark m).writes nofun⟩
  | tristate v => exact ⟨_, Spells.writes (spells_text h rfl) nofun⟩
  | number v => exact ⟨_, Spells.writes (spells_text h rfl) nofun⟩
  | hexNumber v => exact ⟨_, Spells.writes (spells_text h rfl) nofun⟩
  | string v raw => exact ⟨_, Spells.writes (spells_text h rfl) nofun⟩
  | ident name => exact ⟨_, Spells.writes (spells_text h rfl) nofun⟩

/-! ## Layouts -/

/-- What stands before a token: a newline, unless the token goes on with a line. -/
def lead : Token → List Char
  | .keyword .ifCondition => []
  | _ => ['\n']

/-- What stands behind a token: a space, unless the token takes its line to the end. -/
def trail : Token → List Char
  | .help _ => []
  | _ => [' ']

/-- Tokens with their spellings, as a text. -/
def layout : List (Token × List Char) → List Char
  | [] => []
  | (t, cs) :: more => lead t ++ (cs ++ (trail t ++ layout more))

/-- What is put behind a token may be there. -/
theorem mayPrecede_layout {t : Token} {more : List (Token × List Char)}
    (hmore : ∀ p ∈ more, Writes p.2 p.1) (hlines : LineWise (some t) (more.map Prod.fst)) :
    MayPrecede t (trail t ++ layout more) := by
  cases t with
  | help body =>
    show HelpBlock.EndsBody (layout more)
    cases more with
    | nil => exact .inl rfl
    | cons p more =>
      obtain ⟨u, cs⟩ := p
      obtain ⟨c, ds, hcs, hwhite, -⟩ := (List.forall_mem_cons.mp hmore).1
      have hlead : lead u = ['\n'] := by
        unfold lead
        split
        · obtain ⟨v, hv, hne⟩ := hlines.1 rfl
          exact absurd (Option.some.inj hv).symm (hne body)
        · rfl
      refine .inr ⟨c, ds ++ (trail u ++ layout more), ?_, hwhite⟩
      show lead u ++ (cs ++ (trail u ++ layout more)) = _
      rw [hlead, show cs = c :: ds from hcs]
      rfl
  | _ => exact fun _ h => (Option.some.inj h).symm

namespace Cursor

/-- Behind white space a cursor yields the token that is read there. -/
theorem next?_of_read {cur : Cursor} {ws ds rest : List Char} {c : Char} {t : Token}
    (hws : ∀ c ∈ ws, Lexeme.isSpace c = true) (hwhite : Text.isWhiteSpace c = false)
    (hread : Lexeme.read c (ds ++ rest) = ⟨.token t, ds.length⟩)
    (hcur : cur.rest = ws ++ (c :: ds ++ rest)) : ∃ item after, cur.next? = some (item, after) ∧
      item.content = .ok ((cur.skip (ws.map .space) (c :: ds ++ rest)).settle t) ∧
        after.rest = rest ∧ after.gap = some [] := by
  have hhere (cur : Cursor) (hcur : cur.rest = c :: ds ++ rest) : ∃ item after,
      cur.next? = some (item, after) ∧ item.content = .ok (cur.settle t) ∧
        after.rest = rest ∧ after.gap = some [] := by
    have hnext := next?_of_cons (hcur.trans List.cons_append)
    rw [hread] at hnext
    exact ⟨_, _, hnext, rfl, List.drop_left, rfl⟩
  cases ws with
  | nil =>
    have hskip : cur.skip [] (c :: ds ++ rest) = cur := by
      have hrest : cur.rest = c :: ds ++ rest := hcur
      rw [← hrest, skip_nil]
    rw [List.map_nil, hskip]
    exact hhere cur hcur
  | cons w ws =>
    obtain ⟨hw, hws⟩ := List.forall_mem_cons.mp hws
    have hspace : ¬ Lexeme.isSpace c = true := by
      simp only [Lexeme.isSpace, Bool.or_eq_true, decide_eq_true_eq]
      rintro ((((rfl | rfl) | rfl) | rfl) | rfl) <;> exact absurd hwhite (by decide)
    have hgap : Lexeme.read w (ws ++ (c :: ds ++ rest)) = ⟨.gap, ws.length⟩ := by
      rw [Lexeme.read, if_pos hw, List.takeWhile_append_of_pos hws, List.cons_append,
        List.takeWhile_cons_of_neg hspace, List.append_nil]
    have hnext := next?_of_cons (hcur.trans List.cons_append)
    rw [hgap] at hnext
    have hskip : cur.advance w (ws ++ (c :: ds ++ rest)) ws.length =
        cur.skip ((w :: ws).map .space) (c :: ds ++ rest) := by
      have htaken : w :: (ws ++ (c :: ds ++ rest)).take ws.length = gapChars ((w :: ws).map .space) := by
        rw [gapChars_map_space, List.take_left]
      rw [advance_eq_skip htaken, List.drop_left]
    rw [hnext]
    simp only [hskip]
    exact hhere _ rfl

/-- Behind white space a cursor yields the token that is written there. -/
theorem next?_of_writes {cur : Cursor} {ws cs rest : List Char} {t : Token}
    (hws : ∀ c ∈ ws, Lexeme.isSpace c = true) (h : Writes cs t) (hrest : MayPrecede t rest)
    (hcur : cur.rest = ws ++ (cs ++ rest)) : ∃ item after, cur.next? = some (item, after) ∧
      item.content = .ok ((cur.skip (ws.map .space) (cs ++ rest)).settle (lexemeToken t)) ∧
        after.rest = rest ∧ after.gap = some [] := by
  obtain ⟨c, ds, rfl, hwhite, hread⟩ := h
  exact next?_of_read hws hwhite (hread rest hrest) hcur

/-- The space behind a token and the newline before the next one are white space. -/
theorem isSpace_of_mem_separator {prev : Option Token} {t : Token} :
    ∀ c ∈ (prev.map trail).getD [] ++ lead t, Lexeme.isSpace c = true := by
  refine List.forall_mem_append.mpr ⟨?_, ?_⟩
  · cases prev with
    | none => exact List.forall_mem_nil _
    | some u =>
      show ∀ c ∈ trail u, _
      unfold trail
      split <;> exact List.all_eq_true.mp (by decide)
  · unfold lead
    split <;> exact List.all_eq_true.mp (by decide)

/-- An `if` behind a space goes on with its line, and behind a newline it opens a block. -/
theorem settle_separator {prev : Option Token} {cur : Cursor} {t : Token}
    (h : cur.gap = prev.map fun _ => []) (hfollow : MayFollow prev t) (rest : List Char) :
    (cur.skip (((prev.map trail).getD [] ++ lead t).map .space) rest).settle (lexemeToken t) = t := by
  by_cases hcondition : t = .keyword .ifCondition
  · obtain ⟨u, hu, hhelp⟩ := hfollow hcondition
    obtain rfl : prev = some u := hu
    subst hcondition
    have htrail : trail u = [' '] := by
      unfold trail
      split
      · exact absurd rfl (hhelp _)
      · rfl
    have hgap : cur.gap = some [] := h
    simp [lexemeToken, settle, startsLine, skip, hgap, htrail, lead, hasLineEnd, GapPiece.chars]
  by_cases hblock : t = .keyword .ifBlock
  · subst hblock
    show Cursor.settle _ (.keyword .ifCondition) = _
    cases prev with
    | none =>
      have hgap : cur.gap = none := h
      simp [settle, startsLine, skip, hgap]
    | some u =>
      have hgap : cur.gap = some [] := h
      have htrail : trail u = [] ∨ trail u = [' '] := by
        unfold trail
        split
        · exact .inl rfl
        · exact .inr rfl
      rcases htrail with htrail | htrail <;>
        simp [settle, startsLine, skip, hgap, htrail, lead, hasLineEnd, GapPiece.chars]
  · have hlexeme : lexemeToken t = t := by
      unfold lexemeToken
      split
      · exact absurd rfl hblock
      · rfl
    rw [hlexeme, settle_eq_of_ne hcondition]

/-- Behind the last token nothing comes. -/
theorem items_of_trail {prev : Option Token} {cur : Cursor} (h : cur.rest = (prev.map trail).getD []) :
    cur.items = [] := by
  have hspace : cur.rest = [] ∨ cur.rest = [' '] := by
    rw [h]
    cases prev with
    | none => exact .inl rfl
    | some u =>
      show trail u = [] ∨ trail u = [' ']
      unfold trail
      split
      · exact .inl rfl
      · exact .inr rfl
  rcases hspace with hnil | hone
  · exact items_of_rest_eq_nil hnil
  · have hnext : cur.next? = none := by
      rw [next?_of_cons hone]
      exact next?_of_nil rfl
    rw [items_of_next?_eq_none hnext]

/-- What a cursor yields before a layout. -/
theorem contents_layout (prev : Option Token) {ps : List (Token × List Char)}
    (hps : ∀ p ∈ ps, Writes p.2 p.1) {cur : Cursor} (h : cur.gap = prev.map fun _ => [])
    (hlines : LineWise prev (ps.map Prod.fst)) (hcur : cur.rest = (prev.map trail).getD [] ++ layout ps) :
    cur.items.map (·.content) = (ps.map Prod.fst).map .ok := by
  induction ps generalizing prev cur with
  | nil => rw [items_of_trail ((List.append_nil _).symm ▸ hcur)]; rfl
  | cons p more ih =>
    obtain ⟨t, cs⟩ := p
    obtain ⟨hwrites, hmore⟩ := List.forall_mem_cons.mp hps
    obtain ⟨hfollow, hlines⟩ := hlines
    have hrest : cur.rest = ((prev.map trail).getD [] ++ lead t) ++ (cs ++ (trail t ++ layout more)) := by
      rw [hcur, List.append_assoc]
      rfl
    obtain ⟨item, after, hnext, hcontent, hafter, hgap⟩ := next?_of_writes isSpace_of_mem_separator hwrites
      (mayPrecede_layout hmore hlines) hrest
    rw [settle_separator h hfollow] at hcontent
    rw [items_of_next?_eq_some hnext, List.map_cons, hcontent, ih (some t) hmore hgap hlines hafter]
    rfl

end Cursor

/-- A list of tokens that may stand where they stand is the token list of a text, if each of them is a token of
some text. -/
theorem exists_text {ts : List Token} (hts : ∀ t ∈ ts, t.Readable) (hlines : LineWise none ts) :
    ∃ text : String, ∀ loc, ∃ us, tokenize loc text.toList = .ok us ∧ us.map Lexed.token = ts := by
  obtain ⟨ps, hps, rfl⟩ : ∃ ps : List (Token × List Char), (∀ p ∈ ps, Writes p.2 p.1) ∧
      ps.map Prod.fst = ts := by
    clear hlines
    induction ts with
    | nil => exact ⟨[], List.forall_mem_nil _, rfl⟩
    | cons t ts ih =>
      obtain ⟨ht, hts⟩ := List.forall_mem_cons.mp hts
      obtain ⟨ps, hps, rfl⟩ := ih hts
      obtain ⟨cs, hcs⟩ := exists_writes ht
      exact ⟨(t, cs) :: ps, List.forall_mem_cons.mpr ⟨hcs, hps⟩, rfl⟩
  refine ⟨String.ofList (layout ps), fun loc => tokenize_of_contents loc ?_⟩
  rw [String.toList_ofList]
  exact Cursor.contents_layout none hps rfl hlines rfl

end KconfigLang
