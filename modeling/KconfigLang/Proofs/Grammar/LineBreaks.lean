import KconfigLang.Proofs.Grammar.Positions
import KconfigLang.Proofs.Token.LineBreaks

/-!
# Line breaks do not matter

A text is parsed alike whether its lines end in newlines alone or in carriage returns and newlines: lines and
columns are the same, and so is all that a tree or an error holds besides byte offsets.

- `crlf`: a text with a carriage return in front of every newline.
- `SpanMaps.returns`: how positions in the two texts are compared.
- `tokenize_returns`: the tokens or the failure of the two texts.
- `SameUpToBytes`: outcomes that differ in byte offsets only.
- `parse_crlf`: whole files and single expressions.
-/

namespace KconfigLang

/-! ## Comparing positions -/

namespace Locator

/-- Lines are counted upwards. -/
theorem position_mono (loc : Locator) {offset offset' : Nat} (h : offset ≤ offset') :
    (loc.position offset).1 ≤ (loc.position offset').1 := by
  simp only [position]
  induction loc.lines with
  | nil => exact Nat.le_refl _
  | cons line lines ih =>
    rw [List.takeWhile_cons, List.takeWhile_cons]
    by_cases hline : line.start ≤ min offset loc.size
    · have hline' : line.start ≤ min offset' loc.size := by omega
      simpa [hline, hline'] using ih
    · simp [hline]

end Locator

/-- A span without its byte offsets. -/
def Span.withoutBytes (s : Span) : Span :=
  { s with start := 0, stop := 0 }

namespace SpanMaps

/-- Where a byte stands if every line before it is a byte longer, and one byte further on. -/
def moved (loc : Locator) (offset : Nat) : Nat :=
  offset + (loc.position offset).1

theorem moved_lt_iff (loc : Locator) {offset offset' : Nat} :
    moved loc offset < moved loc offset' ↔ offset < offset' := by
  have hmono {o o' : Nat} (h : o ≤ o') : moved loc o ≤ moved loc o' :=
    Nat.add_le_add h (loc.position_mono h)
  constructor
  · intro hlt
    by_contra hle
    exact absurd (hmono (Nat.le_of_not_lt hle)) (Nat.not_le_of_lt hlt)
  · intro hlt
    exact Nat.add_lt_add_of_lt_of_le hlt (loc.position_mono (Nat.le_of_lt hlt))

/-- A position in the text without carriage returns, as it is compared. -/
def movedSpan (loc : Locator) (s : Span) : Span :=
  { s with start := moved loc s.start, stop := 0 }

/-- A position in the text with carriage returns, as it is compared. -/
def returnSpan (s : Span) : Span :=
  { s with start := s.start + 1, stop := 0 }

theorem movedSpan_eq_iff {loc : Locator} {s t : Span} : movedSpan loc s = returnSpan t ↔
    s.file = t.file ∧ moved loc s.start = t.start + 1 ∧ s.line = t.line ∧ s.column = t.column := by
  simp [movedSpan, returnSpan]

/-- Positions that are the same come in the same order. -/
theorem start_lt_iff {loc : Locator} {s t s' t' : Span} (h : movedSpan loc s = returnSpan t)
    (h' : movedSpan loc s' = returnSpan t') : s'.start < s.start ↔ t'.start < t.start := by
  have hs := (movedSpan_eq_iff.mp h).2.1
  have hs' := (movedSpan_eq_iff.mp h').2.1
  rw [← moved_lt_iff loc, hs, hs']
  omega

/-- The second list belongs to the text of the first with a carriage return in front of every newline. Where a
piece ends is not compared: one that runs to the end of its line ends behind the carriage return. -/
def returns (loc : Locator) : SpanMaps where
  left := movedSpan loc
  right := returnSpan
  join := by
    intro s t s' t' h h'
    have hiff := start_lt_iff h h'
    rw [movedSpan_eq_iff] at h h' ⊢
    by_cases hlt : s'.start < s.start
    · simpa [Span.join, hlt, hiff.mp hlt, h.1] using h'.2
    · simpa [Span.join, hlt, hiff.not.mp hlt] using h
  stop h _ := h
  stop_zero h := h

theorem returns_keepsOrder (loc : Locator) : (returns loc).KeepsOrder :=
  fun h h' => start_lt_iff h h'

end SpanMaps

/-! ## Tokens -/

section Tokens

variable {cs : List Char}

/-- The same place of the two texts. -/
theorem movedSpan_span (id : FileId) {before after : List Char} (hcs : cs = before ++ after) (stop stop' : Nat) :
    SpanMaps.movedSpan (.ofChars id cs) ((Locator.ofChars id cs).span (Text.byteLength before) stop) =
      SpanMaps.returnSpan ((Locator.ofChars id (Text.withReturns cs)).span
        (Text.byteLength (Text.withReturns before)) stop') := by
  subst hcs
  have hmoved : SpanMaps.moved (.ofChars id (before ++ after)) (Text.byteLength before) =
      Text.byteLength (Text.withReturns before) + 1 := by
    rw [SpanMaps.moved, Locator.position_append, Text.byteLength_withReturns]
  rw [Text.withReturns_append, Locator.span_append, Locator.span_append, SpanMaps.movedSpan, SpanMaps.returnSpan,
    hmoved, Text.lineAt_withReturns, Text.columnAt_withReturns]

/-- Items at the same place are the same token or the same failure. -/
theorem StreamItem.Same.locate {item item' : StreamItem} (h : item.Same cs item') (id : FileId) :
    (∃ t u, item.locate (.ofChars id cs) = .ok t ∧ item'.locate (.ofChars id (Text.withReturns cs)) = .ok u ∧
      (SpanMaps.returns (.ofChars id cs)).SameLexed t u) ∨
    ∃ e e', item.locate (.ofChars id cs) = .error e ∧
      item'.locate (.ofChars id (Text.withReturns cs)) = .error e' ∧
      (SpanMaps.returns (.ofChars id cs)).Same SyntaxError.mapSpan (.lex e) (.lex e') := by
  obtain ⟨content, head, start, stop⟩ := item
  obtain ⟨content', head', start', stop'⟩ := item'
  obtain ⟨rfl, rfl, before, after, hcs, rfl, rfl⟩ := h
  have hspan := movedSpan_span id hcs stop stop'
  cases content' with
  | ok t => exact .inl ⟨_, _, rfl, rfl, rfl, hspan⟩
  | error cause =>
    refine .inr ⟨_, _, rfl, rfl, ?_⟩
    exact congrArg (fun s => SyntaxError.lex ⟨cause, s, if cause = .unexpectedCharacter then some head' else none⟩)
      hspan

/-- The tokens of the two texts, or their first failures. -/
theorem tokenize_returns (id : FileId) (h : '\r' ∉ cs) :
    (∃ ts us, tokenize (.ofChars id cs) cs = .ok ts ∧
      tokenize (.ofChars id (Text.withReturns cs)) (Text.withReturns cs) = .ok us ∧
      List.Forall₂ (SpanMaps.returns (.ofChars id cs)).SameLexed ts us) ∨
    ∃ e e', tokenize (.ofChars id cs) cs = .error e ∧
      tokenize (.ofChars id (Text.withReturns cs)) (Text.withReturns cs) = .error e' ∧
      (SpanMaps.returns (.ofChars id cs)).Same SyntaxError.mapSpan (.lex e) (.lex e') := by
  have hitems := (Cursor.same_ofChars h).items h
  unfold tokenize
  generalize (Cursor.ofChars cs).items = items at hitems ⊢
  generalize (Cursor.ofChars (Text.withReturns cs)).items = items' at hitems ⊢
  induction hitems with
  | nil => exact .inl ⟨[], [], rfl, rfl, .nil⟩
  | cons hitem _ ih =>
    rw [List.mapM_cons, List.mapM_cons]
    rcases hitem.locate id with ⟨t, u, ht, hu, htu⟩ | ⟨e, e', he, he', hsame⟩
    · rw [ht, hu]
      rcases ih with ⟨ts, us, hts, hus, htsus⟩ | ⟨e, e', he, he', hsame⟩
      · rw [hts, hus]
        exact .inl ⟨_, _, rfl, rfl, .cons htu htsus⟩
      · rw [he, he']
        exact .inr ⟨e, e', rfl, rfl, hsame⟩
    · rw [he, he']
      exact .inr ⟨e, e', rfl, rfl, hsame⟩

end Tokens

/-! ## Whole texts -/

/-- A text with a carriage return in front of every newline. -/
def crlf (text : String) : String :=
  String.ofList (Text.withReturns text.toList)

theorem endSpan_returns (id : FileId) (cs : List Char) (ts us : List Lexed) :
    SpanMaps.movedSpan (.ofChars id cs) (endSpan (.ofChars id cs) ts) =
      SpanMaps.returnSpan (endSpan (.ofChars id (Text.withReturns cs)) us) :=
  movedSpan_span id (List.append_nil cs).symm _ _

/-- Readers that are alike make the same of both texts. -/
theorem Alike.parseText {α : Type} {id : FileId} {text : String} {R : α → α → Prop} {p q : Reader α}
    (h : Alike (SpanMaps.returns (.ofChars id text.toList)) R p q) (hreturn : '\r' ∉ text.toList) :
    (∃ v w, p.parseText id text = .ok v ∧ q.parseText id (crlf text) = .ok w ∧ R v w) ∨
      ∃ e e', p.parseText id text = .error e ∧ q.parseText id (crlf text) = .error e' ∧
        (SpanMaps.returns (.ofChars id text.toList)).Same SyntaxError.mapSpan e e' := by
  simp only [Reader.parseText, crlf, String.toList_ofList]
  rcases tokenize_returns id hreturn with ⟨ts, us, hts, hus, hsame⟩ | ⟨e, e', he, he', hsame⟩
  · rw [hts, hus]
    simp only
    rcases h.parse hsame (.ofChars id text.toList) (.ofChars id (Text.withReturns text.toList)) with
      ⟨v, w, hv, hw, hvw⟩ | ⟨e, e', he, he', herror⟩
    · rw [hv, hw]
      exact .inl ⟨v, w, rfl, rfl, hvw⟩
    · rw [he, he']
      refine .inr ⟨_, _, rfl, rfl, congrArg SyntaxError.parse ?_⟩
      exact herror (SpanMaps.returns_keepsOrder _) (endSpan_returns id text.toList ts us)
  · rw [he, he']
    exact .inr ⟨_, _, rfl, rfl, hsame⟩

/-- A message tells the line and the column of an error and nothing else of its spans. -/
theorem SyntaxError.message_mapSpan {f : Span → Span} (hf : ∀ s, (f s).text = s.text) (e : SyntaxError) :
    (e.mapSpan f).message = e.message := by
  cases e with
  | lex e =>
    show (f e.span).text ++ ": " ++ e.cause.text ++ _ = e.span.text ++ ": " ++ e.cause.text ++ _
    rw [hf]
  | parse e =>
    obtain ⟨span, found, cause, production⟩ := e
    show (f span).text ++ ": " ++ ParseError.label ⟨f span, found, cause.mapSpan f, production⟩ ++ _ ++ _ =
      span.text ++ ": " ++ ParseError.label ⟨span, found, cause, production⟩ ++ _ ++ _
    rw [hf]
    cases cause <;> rfl

/-- Two outcomes that differ in byte offsets only: trees whose nodes have the same lines and columns, or errors of
the same kind at the same line and column with the same message. -/
def SameUpToBytes {α : Type} (change : (Span → Span) → α → α) :
    Except SyntaxError α → Except SyntaxError α → Prop
  | .ok v, .ok w => change Span.withoutBytes v = change Span.withoutBytes w
  | .error e, .error e' => e.mapSpan Span.withoutBytes = e'.mapSpan Span.withoutBytes ∧
      e.span.line = e'.span.line ∧ e.span.column = e'.span.column ∧ e.message = e'.message
  | _, _ => False

section Outcomes

variable {loc : Locator}

/-- Without their byte offsets, trees that are the same as compared are the same. -/
theorem SpanMaps.Same.withoutBytes {α : Type} {change : (Span → Span) → α → α} {v w : α}
    (h : (SpanMaps.returns loc).Same change v w)
    (hchange : ∀ f g a, change g (change f a) = change (fun s => g (f s)) a) :
    change Span.withoutBytes v = change Span.withoutBytes w := by
  have hboth := congrArg (change Span.withoutBytes) h
  rw [hchange, hchange] at hboth
  exact hboth

theorem SpanMaps.Same.sameUpToBytes {e e' : SyntaxError} (h : (SpanMaps.returns loc).Same SyntaxError.mapSpan e e')
    {α : Type} (change : (Span → Span) → α → α) : SameUpToBytes change (.error e) (.error e') := by
  have hbytes := h.withoutBytes SyntaxError.mapSpan_mapSpan
  have hspan : e.span.withoutBytes = e'.span.withoutBytes := by
    rw [← SyntaxError.span_mapSpan Span.withoutBytes e, hbytes, SyntaxError.span_mapSpan]
  refine ⟨hbytes, congrArg (·.line) hspan, congrArg (·.column) hspan, ?_⟩
  have hmessage := SyntaxError.message_mapSpan (f := Span.withoutBytes) fun _ => rfl
  rw [← hmessage e, hbytes, hmessage]

end Outcomes

/-- **Line breaks**: a text without carriage returns and the same text with one in front of every newline give
the same tree but for byte offsets, or fail with the same kind of error at the same line and column and with the
same message; and so do expressions. -/
theorem parse_crlf (id : FileId) (text : String) (h : '\r' ∉ text.toList) :
    SameUpToBytes Root.mapSpan (parse id text) (parse id (crlf text)) ∧
      SameUpToBytes Expr.mapSpan (parseExpr text) (parseExpr (crlf text)) := by
  constructor
  · rcases (Grammar.file_alike id id).parseText h with
      ⟨⟨_, _, title, block⟩, ⟨_, _, title', block'⟩, hv, hw, hpath, hfile, hfile', htitle, hblock⟩ |
        ⟨e, e', he, he', hsame⟩
    · rw [parse, parse, hv, hw]
      simp only at hpath hfile hfile'
      have htitle : (SpanMaps.returns (.ofChars id text.toList)).Same (fun f => Option.map (MainMenu.mapSpan f))
          title title' := htitle
      have htitle' := htitle.withoutBytes fun f g title => by simp [Function.comp_def]
      have hblock' := hblock.withoutBytes Stmt.mapSpanAll_mapSpanAll
      simp only [SameUpToBytes, Root.mapSpan, hpath, hfile, hfile', htitle', hblock']
    · rw [parse, parse, he, he']
      exact hsame.sameUpToBytes _
  · rcases Grammar.expression_alike.parseText h with ⟨v, w, hv, hw, hsame⟩ | ⟨e, e', he, he', hsame⟩
    · rw [parseExpr, parseExpr, hv, hw]
      exact hsame.withoutBytes Expr.mapSpan_mapSpan
    · rw [parseExpr, parseExpr, he, he']
      exact hsame.sameUpToBytes _

/-- A text with a comment, a continued line and a help block. -/
def brokenLines : String :=
  "config A # first\n\tbool \\\n\t\"a\"\n\thelp\n\t  One.\n\n\t  Two.\nif A\nendif\n"

theorem brokenLines_crlf : '\r' ∉ brokenLines.toList ∧
    SameUpToBytes Root.mapSpan (parse .root brokenLines) (parse .root (crlf brokenLines)) ∧
      SameUpToBytes Expr.mapSpan (parseExpr brokenLines) (parseExpr (crlf brokenLines)) := by
  have hreturn : '\r' ∉ brokenLines.toList := by decide
  exact ⟨hreturn, parse_crlf .root brokenLines hreturn⟩

end KconfigLang
