import KconfigLang.Proofs.Token.Tiling

/-!
# The start of a line

Which `if` opens a block, in terms of the pieces of the gap before it.

- `endsInBackslash`: whether a comment ends in a backslash, which hides the newline behind it.
- `breaksLine`: whether a gap has a newline that is neither continued nor hidden.
- `ifBlock_iff`: an `if` opens a block exactly when it is the first token or stands behind such a gap.
-/

namespace KconfigLang

/-- Whether the last character of a comment is a backslash, carriage returns apart. -/
def endsInBackslash (body : List Char) : Bool :=
  (body.filter (· ≠ '\r')).getLast? = some '\\'

/-- Whether a gap has a newline outside of continued lines and not right behind a comment that ends in a
backslash; `hidden` says that the gap stands behind such a comment itself. -/
def breaksLine (hidden : Bool) : List GapPiece → Bool
  | [] => false
  | .space c :: ps => (c = '\n' && !hidden) || breaksLine false ps
  | .continuation _ :: ps => breaksLine false ps
  | .comment body :: ps => breaksLine (endsInBackslash body) ps

/-! ## The scan of a gap -/

namespace Cursor

/-- A scan leaves a comment with its last character in mind. -/
theorem hasLineEnd_comment {body : List Char} (h : '\n' ∉ body) (cs : List Char) :
    hasLineEnd false (body ++ cs) = hasLineEnd (endsInBackslash body) cs := by
  induction body using List.reverseRecOn generalizing cs with
  | nil => rfl
  | append_singleton body c ih =>
    rw [List.mem_append, List.mem_singleton, not_or] at h
    rw [List.append_assoc, ih h.1, List.singleton_append, hasLineEnd, if_neg (Ne.symm h.2)]
    by_cases hbackslash : c = '\\'
    · subst hbackslash
      simp [endsInBackslash, List.filter_append]
    · by_cases hreturn : c = '\r'
      · subst hreturn
        simp [endsInBackslash, List.filter_append]
      · simp [endsInBackslash, List.filter_append, hbackslash, hreturn]

/-- The scan of a gap finds the newlines that break lines. -/
theorem hasLineEnd_gap {hidden : Bool} {ps : List GapPiece} {rest : List Char} (h : IsGap ps rest)
    (hhidden : hidden = true → AtLineEnd (gapChars ps ++ rest)) :
    hasLineEnd hidden (gapChars ps) = breaksLine hidden ps := by
  induction ps generalizing hidden with
  | nil => rfl
  | cons p ps ih =>
    cases p with
    | space c =>
      have hmore := @ih false h.2 (fun hfalse => absurd hfalse Bool.false_ne_true)
      have hbackslash : c ≠ '\\' := by
        rintro rfl
        exact absurd h.1 (by decide)
      show hasLineEnd hidden (c :: gapChars ps) = _
      rw [hasLineEnd, if_neg hbackslash, breaksLine, hmore]
      by_cases hline : c = '\n'
      · simp [hline]
      -- Behind a comment that ends in a backslash there is a newline and nothing else.
      · cases hidden with
        | true => exact absurd (hhidden rfl c rfl) hline
        | false => simp [hline, hmore]
    | continuation r =>
      have hmore := @ih false h (fun hfalse => absurd hfalse Bool.false_ne_true)
      rw [breaksLine, ← hmore]
      cases r <;> rfl
    | comment body =>
      obtain ⟨hbody, hend, hrest⟩ := h
      show hasLineEnd hidden ('#' :: (body ++ gapChars ps)) = _
      rw [hasLineEnd, if_neg (by decide), if_neg (by decide), if_neg (by decide),
        hasLineEnd_comment hbody, breaksLine]
      exact ih hrest fun _ => hend

end Cursor

/-! ## Keywords in the stream -/

namespace Lexeme

/-- A keyword is read from its spelling. -/
theorem keyword_of_read {c : Char} {cs : List Char} {k : Keyword} {extra : Nat}
    (h : read c cs = ⟨.token (.keyword k), extra⟩) :
    k ∈ Keyword.words ∧ c :: cs.take extra = k.text.toList := by
  have hword : word c cs = ⟨.token (.keyword k), extra⟩ := by
    rcases read_token_cases h with ⟨-, h⟩ | ⟨-, h⟩ | ⟨-, h⟩ | ⟨-, h⟩ | h
    · exact h
    · unfold number decimal hexadecimal at h
      simp only at h
      split at h <;> split at h <;> split at h <;> cases h
    · unfold dash decimal at h
      simp only at h
      split at h
      · split at h <;> cases h
      · split at h <;> cases h
    · unfold string at h
      split at h
      · cases h
      · simp only at h
        split at h <;> cases h
    · unfold mark at h
      split at h <;> cases h
  unfold word at hword
  simp only at hword
  split at hword
  · cases hword
  · obtain ⟨hkind, rfl⟩ := Lexeme.mk.inj hword
    have htoken := LexemeKind.token.inj hkind
    unfold Token.ofWord at htoken
    split at htoken
    · rename_i hfind
      obtain rfl := Token.keyword.inj htoken
      refine ⟨List.mem_of_find?_eq_some hfind, ?_⟩
      have htext := List.find?_some hfind
      rw [eq_of_beq htext, String.toList_ofList]
      exact congrArg _ (List.prefix_iff_eq_take.mp (List.takeWhile_prefix _)).symm
    · cases htoken
    · cases htoken

end Lexeme

/-! ## Which `if` opens a block -/

namespace Cursor

/-- An `if` behind a gap opens a block if it is the first token of its text or the gap breaks the line. -/
theorem settle_skip_ifCondition {cur : Cursor} (hcur : cur.gap = none ∨ cur.gap = some [])
    {ps : List GapPiece} {rest : List Char} (hgap : IsGap ps rest) :
    (cur.skip ps rest).settle (.keyword .ifCondition) = .keyword .ifBlock ↔
      cur.gap = none ∨ breaksLine false ps = true := by
  have hstart : (cur.skip ps rest).startsLine = true ↔ cur.gap = none ∨ breaksLine false ps = true := by
    rcases hcur with hnone | hsome
    · simp [startsLine, skip, hnone]
    · have hscan : hasLineEnd false (gapChars ps) = breaksLine false ps :=
        hasLineEnd_gap hgap fun hfalse => absurd hfalse Bool.false_ne_true
      simp [startsLine, skip, hsome, hscan]
  rw [← hstart, settle]
  cases (cur.skip ps rest).startsLine <;> simp

/-- A token that is an `if` is written so, and opens a block as the gap before it says. -/
theorem ifBlock_iff_of_next? {cur after : Cursor} {item : StreamItem} {t : Token}
    (hcur : cur.gap = none ∨ cur.gap = some []) (h : cur.next? = some (item, after))
    (ht : item.content = .ok t) (hif : t = .keyword .ifBlock ∨ t = .keyword .ifCondition) :
    ∃ ps rest, cur.rest = gapChars ps ++ 'i' :: 'f' :: rest ∧ IsGap ps ('i' :: 'f' :: rest) ∧
      item.start = cur.offset + Text.byteLength (gapChars ps) ∧
      (t = .keyword .ifBlock ↔ cur.gap = none ∨ breaksLine false ps = true) := by
  obtain ⟨ps, taken, hrest, hgap, hextra, hstart, -, -, ⟨u, hkind, hcontent, -⟩ | ⟨cause, -, hcontent⟩⟩ :=
    next?_cases h
  · obtain rfl := Except.ok.inj (ht.symm.trans hcontent)
    have hread : Lexeme.read item.head (taken ++ after.rest) = ⟨.token u, taken.length⟩ := by
      rw [← hkind, ← hextra]
    -- No word is read as an `if` that opens a block: the stream makes it one.
    obtain rfl : u = .keyword .ifCondition := by
      by_contra hne
      have hsettle : (cur.skip ps (item.head :: taken ++ after.rest)).settle u = u := by
        unfold settle
        split
        · exact absurd rfl hne
        · rfl
      rw [hsettle] at hif
      rcases hif with rfl | rfl
      · exact absurd (Lexeme.keyword_of_read hread).1 (by decide)
      · exact hne rfl
    have htext := (Lexeme.keyword_of_read hread).2
    rw [List.take_left] at htext
    have hchars : item.head :: taken ++ after.rest = 'i' :: 'f' :: after.rest :=
      congrArg (· ++ after.rest) htext
    rw [hchars] at hrest hgap ⊢
    exact ⟨ps, after.rest, hrest, hgap, hstart, settle_skip_ifCondition hcur hgap⟩
  · exact absurd (ht.symm.trans hcontent) (by simp)

/-- What decides about an `if` behind the tokens `before`, seen from a cursor in front of them. -/
theorem ifBlock_iff_of_items {loc : Locator} {cur : Cursor} (hcur : cur.gap = none ∨ cur.gap = some [])
    {before after : List Lexed} {t : Lexed}
    (h : List.Forall₂ (fun item t => item.locate loc = .ok t) cur.items (before ++ t :: after))
    (hif : t.token = .keyword .ifBlock ∨ t.token = .keyword .ifCondition) :
    ∃ pre ps rest, cur.rest = pre ++ gapChars ps ++ 'i' :: 'f' :: rest ∧ IsGap ps ('i' :: 'f' :: rest) ∧
      cur.offset + Text.byteLength pre = (before.getLast?.map (·.span.stop)).getD cur.offset ∧
      t.span.start = cur.offset + Text.byteLength (pre ++ gapChars ps) ∧
      (t.token = .keyword .ifBlock ↔ (before = [] ∧ cur.gap = none) ∨ breaksLine false ps = true) := by
  induction before generalizing cur with
  | nil =>
    obtain ⟨item, items, hlocate, -, hitems⟩ := List.forall₂_cons_right_iff.mp h
    obtain ⟨next, hnext, -⟩ := exists_next?_of_items hitems
    obtain ⟨hcontent, hspan⟩ := StreamItem.locate_eq_ok_iff.mp hlocate
    obtain ⟨ps, rest, hrest, hgap, hstart, hiff⟩ := ifBlock_iff_of_next? hcur hnext hcontent hif
    exact ⟨[], ps, rest, hrest, hgap, rfl, by rw [hspan]; exact hstart, by simpa using hiff⟩
  | cons u before ih =>
    obtain ⟨item, items, hlocate, hmore, hitems⟩ := List.forall₂_cons_right_iff.mp h
    obtain ⟨next, hnext, rfl⟩ := exists_next?_of_items hitems
    obtain ⟨hcontent, hspan⟩ := StreamItem.locate_eq_ok_iff.mp hlocate
    obtain ⟨ps₀, taken, hrest₀, -, -, hstart, hstop, hoffset, ⟨_, -, -, hgap₀⟩ | ⟨_, -, hcause⟩⟩ :=
      next?_cases hnext
    · obtain ⟨pre, ps, rest, hrest, hgap, hpre, hfrom, hiff⟩ := ih (.inr hgap₀) hmore
      have hshift (ds : List Char) :
          cur.offset + Text.byteLength (gapChars ps₀ ++ (item.head :: taken ++ ds)) =
            next.offset + Text.byteLength ds := by
        simp only [Text.byteLength_append] at hstop ⊢
        omega
      refine ⟨gapChars ps₀ ++ (item.head :: taken ++ pre), ps, rest, ?_, hgap, ?_, ?_, ?_⟩
      · rw [hrest₀, hrest]
        simp only [List.append_assoc]
      · have hlast : u.span.stop = next.offset := by rw [hspan, hoffset]; rfl
        rw [hshift, hpre, List.getLast?_cons]
        cases before.getLast? with
        | none => exact hlast.symm
        | some v => rfl
      · rw [List.append_assoc, List.append_assoc, hshift]
        exact hfrom
      · simpa [hgap₀] using hiff
    · exact absurd (hcontent.symm.trans hcause) (by simp)

end Cursor

/-- An `if` opens a block exactly when it is the first token of its text or a line ends in the gap between it
and the token before: at a newline that is not continued, and not hidden behind a comment that ends in a
backslash. -/
theorem ifBlock_iff {loc : Locator} {cs : List Char} {before after : List Lexed} {t : Lexed}
    (h : tokenize loc cs = .ok (before ++ t :: after))
    (hif : t.token = .keyword .ifBlock ∨ t.token = .keyword .ifCondition) :
    ∃ pre ps rest, cs = pre ++ gapChars ps ++ 'i' :: 'f' :: rest ∧ IsGap ps ('i' :: 'f' :: rest) ∧
      Text.byteLength pre = (before.getLast?.map (·.span.stop)).getD 0 ∧
      t.span.start = Text.byteLength (pre ++ gapChars ps) ∧
      (t.token = .keyword .ifBlock ↔ before = [] ∨ breaksLine false ps = true) := by
  obtain ⟨pre, ps, rest, hrest, hgap, hpre, hstart, hiff⟩ :=
    Cursor.ifBlock_iff_of_items (.inl rfl) (tokenize_eq_ok_iff.mp h) hif
  rw [show (Cursor.ofChars cs).offset = 0 from rfl, Nat.zero_add] at hpre hstart
  exact ⟨pre, ps, rest, hrest, hgap, hpre, hstart, by simpa [Cursor.ofChars] using hiff⟩

/-- An `if` on a line of its own, behind a comment that ends in a backslash. -/
def hiddenText : List Char :=
  "endmenu # done \\\nif X".toList

/-- The gap before that `if`. -/
def hiddenGap : List GapPiece :=
  [.space ' ', .comment " done \\".toList, .space '\n']

/-- The tokens of that text. -/
def hiddenTokens : List Lexed :=
  [⟨.keyword .endmenu, ⟨.root, 0, 7, 1, 1⟩⟩, ⟨.keyword .ifCondition, ⟨.root, 17, 19, 2, 1⟩⟩,
    ⟨.ident "X", ⟨.root, 20, 21, 2, 4⟩⟩]

theorem tokenize_hiddenText : tokenize (.ofChars .root hiddenText) hiddenText = .ok hiddenTokens := by
  decide +kernel

theorem hidden_ifBlock_iff :
    ∃ before t after, tokenize (.ofChars .root hiddenText) hiddenText = .ok (before ++ t :: after) ∧
      (t.token = .keyword .ifBlock ∨ t.token = .keyword .ifCondition) ∧
      ∃ pre ps rest, hiddenText = pre ++ gapChars ps ++ 'i' :: 'f' :: rest ∧
        IsGap ps ('i' :: 'f' :: rest) ∧
        Text.byteLength pre = (before.getLast?.map (·.span.stop)).getD 0 ∧
        t.span.start = Text.byteLength (pre ++ gapChars ps) ∧
        (t.token = .keyword .ifBlock ↔ before = [] ∨ breaksLine false ps = true) :=
  ⟨hiddenTokens.take 1, hiddenTokens[1], hiddenTokens.drop 2, tokenize_hiddenText, .inr rfl,
    ifBlock_iff tokenize_hiddenText (.inr rfl)⟩

/-- A comment that ends in a backslash hides its newline: the `if` behind it opens no block. -/
theorem comment_hides_newline :
    tokenize (.ofChars .root hiddenText) hiddenText = .ok hiddenTokens ∧
      hiddenTokens.map Lexed.token = [.keyword .endmenu, .keyword .ifCondition, .ident "X"] ∧
      hiddenText = "endmenu".toList ++ gapChars hiddenGap ++ "if X".toList ∧
      IsGap hiddenGap "if X".toList ∧ .space '\n' ∈ hiddenGap :=
  ⟨tokenize_hiddenText, rfl, by decide, ⟨by decide, by decide, atLineEnd_newline _, by decide, trivial⟩,
    by decide⟩

end KconfigLang
