import KconfigLang.Proofs.Token.Layout
import KconfigLang.Proofs.Token.LineLocal

/-!
# Printing tokens

Tokens that are printed as messages show them, with a space between each two and a newline before an `if` that
opens a block, are read back.

- `printed`: tokens as a text.
- `writes_text`: a token other than a help block is written as its text.
- `Cursor.contents_printedBehind`: what a cursor yields before printed tokens.
- `tokenize_printed`: the tokens of a printed text.
-/

namespace KconfigLang

/-- What is printed between a token and the one before it. -/
def separator : Token → Char
  | .keyword .ifBlock => '\n'
  | _ => ' '

/-- Some tokens as they are printed behind another one. -/
def printedBehind (ts : List Token) : List Char :=
  ts.flatMap fun t => separator t :: t.text.toList

/-- Some tokens as a text. -/
def printed : List Token → List Char
  | [] => []
  | t :: ts => t.text.toList ++ printedBehind ts

theorem separator_cases (t : Token) :
    t = .keyword .ifBlock ∧ separator t = '\n' ∨ t ≠ .keyword .ifBlock ∧ separator t = ' ' := by
  unfold separator
  split
  · exact .inl ⟨rfl, rfl⟩
  · rename_i hne
    exact .inr ⟨hne, rfl⟩

theorem isSpace_separator (t : Token) : Lexeme.isSpace (separator t) = true := by
  rcases separator_cases t with ⟨-, h⟩ | ⟨-, h⟩ <;> rw [h] <;> decide

/-! ## One token -/

/-- A token other than a help block is written as its text. -/
theorem writes_text {t : Token} (h : t.Readable) (hhelp : ∀ body, t ≠ .help body) :
    Writes t.text.toList t := by
  cases t with
  | keyword k => exact writes_keyword k
  | help body => exact absurd rfl (hhelp body)
  | mark m => exact Spells.writes (spells_text h rfl) hhelp
  | tristate v => exact Spells.writes (spells_text h rfl) hhelp
  | number v => exact Spells.writes (spells_text h rfl) hhelp
  | hexNumber v => exact Spells.writes (spells_text h rfl) hhelp
  | string v raw => exact Spells.writes (spells_text h rfl) hhelp
  | ident name => exact Spells.writes (spells_text h rfl) hhelp

/-- What is printed behind a token does not lengthen it. -/
theorem Writes.read_printedBehind {cs : List Char} {t : Token} (h : Writes cs t)
    (hhelp : ∀ body, t ≠ .help body) (ts : List Token) : ∃ c ds, cs = c :: ds ∧
      Text.isWhiteSpace c = false ∧
        Lexeme.read c (ds ++ printedBehind ts) = ⟨.token (lexemeToken t), ds.length⟩ := by
  obtain ⟨c, ds, rfl, hwhite, hread⟩ := h
  have hspaced (rest : List Char) (hrest : Spaced rest) :
      Lexeme.read c (ds ++ rest) = ⟨.token (lexemeToken t), ds.length⟩ := by
    refine hread rest ?_
    unfold MayPrecede
    split
    · exact absurd rfl (hhelp _)
    · exact hrest
  refine ⟨c, ds, rfl, hwhite, ?_⟩
  cases ts with
  | nil => exact hspaced [] fun _ h => absurd h (Option.not_mem_none _)
  | cons u us =>
    show Lexeme.read c (ds ++ separator u :: (u.text.toList ++ printedBehind us)) = _
    rcases separator_cases u with ⟨-, hu⟩ | ⟨-, hu⟩
    · -- A newline ends whatever the token alone is read as.
      have halone := hspaced [] fun _ h => absurd h (Option.not_mem_none _)
      rw [List.append_nil] at halone
      rw [hu]
      refine Lexeme.read_newline halone (fun body hbody => ?_) _
      unfold lexemeToken at hbody
      split at hbody
      · exact nomatch hbody
      · exact hhelp body hbody
    · rw [hu]
      exact hspaced _ fun _ h => (Option.some.inj h).symm

/-- An `if` behind a newline opens a block, and behind a space it goes on with its line. -/
theorem settle_separator_behind {cur : Cursor} (h : cur.gap = some []) (t : Token) (rest : List Char) :
    (cur.skip [.space (separator t)] rest).settle (lexemeToken t) = t := by
  by_cases hif : t = .keyword .ifCondition ∨ t = .keyword .ifBlock
  · rcases hif with rfl | rfl <;>
      simp [lexemeToken, Cursor.settle, Cursor.startsLine, Cursor.skip, h, separator, Cursor.hasLineEnd,
        GapPiece.chars]
  · rw [not_or] at hif
    have hlexeme : lexemeToken t = t := by
      unfold lexemeToken
      split
      · exact absurd rfl hif.2
      · rfl
    rw [hlexeme, Cursor.settle_eq_of_ne hif.1]

/-- An `if` that is first in a text opens a block. -/
theorem settle_first {cur : Cursor} (h : cur.gap = none) {t : Token} (hfollow : MayFollow none t) :
    cur.settle (lexemeToken t) = t := by
  have hcondition : t ≠ .keyword .ifCondition := fun ht => nomatch hfollow ht
  unfold lexemeToken
  split
  · simp [Cursor.settle, Cursor.startsLine, h]
  · exact Cursor.settle_eq_of_ne hcondition

/-! ## All tokens -/

/-- What a cursor behind a token yields before printed tokens. -/
theorem Cursor.contents_printedBehind {ts : List Token} (hts : ∀ t ∈ ts, t.Readable)
    (hhelp : ∀ t ∈ ts, ∀ body, t ≠ .help body) {cur : Cursor} (hgap : cur.gap = some [])
    (hcur : cur.rest = printedBehind ts) : cur.items.map (·.content) = ts.map .ok := by
  induction ts generalizing cur with
  | nil =>
    rw [items_of_rest_eq_nil hcur]
    rfl
  | cons t ts ih =>
    obtain ⟨ht, hts⟩ := List.forall_mem_cons.mp hts
    obtain ⟨htHelp, hhelp⟩ := List.forall_mem_cons.mp hhelp
    obtain ⟨c, ds, htext, hwhite, hread⟩ := (writes_text ht htHelp).read_printedBehind htHelp ts
    have hrest : cur.rest = [separator t] ++ (c :: ds ++ printedBehind ts) := by
      rw [hcur, ← htext]
      rfl
    have hspace : ∀ c ∈ [separator t], Lexeme.isSpace c = true :=
      List.forall_mem_singleton.mpr (isSpace_separator t)
    obtain ⟨item, after, hnext, hcontent, hafter, hgap'⟩ := next?_of_read hspace hwhite hread hrest
    rw [List.map_singleton, settle_separator_behind hgap] at hcontent
    rw [items_of_next?_eq_some hnext, List.map_cons, hcontent, ih hts hhelp hgap' hafter]
    rfl

/-- **Printed tokens are read back**: where a text has tokens and no help block is among them, the tokens are
also those of the text in which they are printed. -/
theorem tokenize_printed {loc : Locator} {cs : List Char} {ts : List Lexed} (h : tokenize loc cs = .ok ts)
    (hhelp : ∀ t ∈ ts, ∀ body, t.token ≠ .help body) (loc' : Locator) :
    ∃ us, tokenize loc' (printed (ts.map Lexed.token)) = .ok us ∧ SameTokens us ts := by
  refine tokenize_of_contents loc' ?_
  have hread : ∀ t ∈ ts.map Lexed.token, t.Readable := List.forall_mem_map.mpr (readable_of_tokenize h)
  have hhelp : ∀ t ∈ ts.map Lexed.token, ∀ body, t ≠ .help body := List.forall_mem_map.mpr hhelp
  have hlines := lineWise_of_tokenize h
  cases hts : ts.map Lexed.token with
  | nil => rw [Cursor.items_of_rest_eq_nil rfl]; rfl
  | cons t us =>
    rw [hts] at hread hhelp hlines
    obtain ⟨ht, hread⟩ := List.forall_mem_cons.mp hread
    obtain ⟨htHelp, hhelp⟩ := List.forall_mem_cons.mp hhelp
    obtain ⟨c, ds, htext, hwhite, hfirst⟩ := (writes_text ht htHelp).read_printedBehind htHelp us
    have hrest : (Cursor.ofChars (printed (t :: us))).rest = [] ++ (c :: ds ++ printedBehind us) := by
      rw [← htext]
      rfl
    obtain ⟨item, after, hnext, hcontent, hafter, hgap⟩ :=
      Cursor.next?_of_read (List.forall_mem_nil _) hwhite hfirst hrest
    have hsettle : ((Cursor.ofChars (printed (t :: us))).skip ([].map .space)
        (c :: ds ++ printedBehind us)).settle (lexemeToken t) = t := settle_first rfl hlines.1
    rw [hsettle] at hcontent
    rw [Cursor.items_of_next?_eq_some hnext, List.map_cons, hcontent,
      Cursor.contents_printedBehind hread hhelp hgap hafter]
    rfl

/-- A text with a comment, a continued line, numbers with leading zeros and an `if` of either kind. -/
def unevenText : List Char :=
  "if A # x\n\trange \\\n -007 0x00fF if y\n default \"a\"\"[\"0041\"]\"\nif C".toList

/-- Its tokens. -/
def unevenTokens : List Lexed :=
  [⟨.keyword .ifBlock, ⟨.root, 0, 2, 1, 1⟩⟩, ⟨.ident "A", ⟨.root, 3, 4, 1, 4⟩⟩,
    ⟨.keyword .range, ⟨.root, 10, 15, 2, 2⟩⟩, ⟨.number (-7), ⟨.root, 19, 23, 3, 2⟩⟩,
    ⟨.hexNumber 255, ⟨.root, 24, 30, 3, 7⟩⟩, ⟨.keyword .ifCondition, ⟨.root, 31, 33, 3, 14⟩⟩,
    ⟨.tristate .yes, ⟨.root, 34, 35, 3, 17⟩⟩, ⟨.keyword .default, ⟨.root, 37, 44, 4, 2⟩⟩,
    ⟨.string "a\"A" "\"a\"\"[\"0041\"]\"", ⟨.root, 45, 58, 4, 10⟩⟩,
    ⟨.keyword .ifBlock, ⟨.root, 59, 61, 5, 1⟩⟩, ⟨.ident "C", ⟨.root, 62, 63, 5, 4⟩⟩]

/-- The same tokens in a text of two lines. -/
def evenText : List Char :=
  "if A range -7 0xff if y default \"a\"\"[\"0041\"]\"\nif C".toList

theorem tokenize_evenText : tokenize (.ofChars .root unevenText) unevenText = .ok unevenTokens ∧
    ∃ us, tokenize (.ofChars .root evenText) evenText = .ok us ∧ SameTokens us unevenTokens := by
  have huneven : tokenize (.ofChars .root unevenText) unevenText = .ok unevenTokens := by decide +kernel
  have hhelp : ∀ t ∈ unevenTokens, ∀ body, t.token ≠ .help body := by simp [unevenTokens]
  have hprinted : printed (unevenTokens.map Lexed.token) = evenText := by decide +kernel
  refine ⟨huneven, ?_⟩
  rw [← hprinted]
  exact tokenize_printed huneven hhelp _

end KconfigLang
