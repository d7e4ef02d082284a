import KconfigLang.Proofs.Grammar.ErrorPlace
import KconfigLang.Proofs.Grammar.Placement

/-!
# The spans of errors

The span of an error lies in the text that is wrong. Most are the spans of pieces of the text, as those of trees are;
the end of the input is none, because its span starts at the end of the text and ends with the last token.

- `Span.LiesIn`: a span has both its ends in a text, and its position is the one counted there.
- `holds_of_tokenize_error`, `Derivation.File.holds_conflicts`, `liesIn_endSpan`: the errors of the lexer, second types,
  and the end of the input.
- `liesIn_of_parse_error` and `liesIn_of_parseExpr_error`: all errors of a text; `parse_error_inFile`: they are the
  same in every file.
-/

namespace KconfigLang

/-! ## Spans in a text -/

/-- A span starts and ends at characters of a text or at its end, and its position is the one counted in the text. It
does not end before it starts, unless it starts at the end of the text. -/
structure Span.LiesIn (s : Span) (cs : List Char) : Prop where
  starts : ∃ before after, cs = before ++ after ∧ s.start = Text.byteLength before ∧
    s.line = Text.lineAt before ∧ s.column = Text.columnAt before
  ends : ∃ before after, cs = before ++ after ∧ s.stop = Text.byteLength before
  ordered : s.start ≤ s.stop ∨ s.start = Text.byteLength cs

section Spans

variable {id : FileId} {cs piece : List Char} {s : Span}

theorem Span.Covers.liesIn (h : s.Covers id cs piece) : s.LiesIn cs := by
  have hordered := h.start_le_stop
  obtain ⟨before, after, hcs, rfl⟩ := h
  have hsplit : cs = before ++ (piece ++ after) := by rw [hcs, List.append_assoc]
  constructor
  · exact ⟨before, piece ++ after, hsplit, rfl, rfl, rfl⟩
  · exact ⟨before ++ piece, after, hcs, rfl⟩
  · exact .inl hordered

theorem Anchor.Holds.liesIn (h : s.anchor.Holds id cs) : s.LiesIn cs := by
  obtain ⟨piece, hcovers, -⟩ := h
  exact hcovers.liesIn

end Spans

/-! ## Errors of the lexer -/

/-- What is no token stands where its error says. -/
theorem holds_of_tokenize_error {id : FileId} {cs : List Char} {e : LexError}
    (h : tokenize (.ofChars id cs) cs = .error e) : e.span.anchor.Holds id cs := by
  obtain ⟨item, hitem, hlocate⟩ := exists_error_of_mapM h
  obtain ⟨content, head, start, stop⟩ := item
  cases content with
  | ok t => cases hlocate
  | error kind =>
    cases hlocate
    obtain ⟨piece, after, hcovers, -⟩ := StreamItem.exists_covers hitem
    exact hcovers.holds

/-! ## Errors of the grammar -/

theorem mem_of_typeConflict? {ps : List Property} {c : TypeConflict} (h : Grammar.typeConflict? ps = some c) :
    .type c.second ∈ ps := by
  have hsecond : c.second ∈ ps.filterMap Grammar.declaredType? := by
    unfold Grammar.typeConflict? at h
    split at h
    · rename_i first second more htypes
      cases h
      rw [htypes]
      exact List.mem_cons_of_mem _ List.mem_cons_self
    · cases h
  obtain ⟨p, hp, htype⟩ := List.mem_filterMap.mp hsecond
  cases p <;> cases htype
  exact hp

namespace Derivation

variable {id : FileId} {cs : List Char}

/-- All second types of a list of conflicts are pieces of a text. -/
def SecondsHold (id : FileId) (cs : List Char) (conflicts : List TypeConflict) : Prop :=
  ∀ c ∈ conflicts, c.second.span.anchor.Holds id cs

theorem holds_conflicts_entry {word : Keyword} (d : Entry) (h : Placed id cs ((entryPhrase word).tokens d)) :
    SecondsHold id cs ((entryPhrase word).conflicts d) := by
  intro c hc
  have hmem := mem_of_typeConflict? (Option.mem_toList.mp hc)
  exact holds_list EntryLine.holds d.lines h.tail.tail _ (List.mem_flatMap_of_mem hmem List.mem_cons_self)

theorem holds_conflicts_list {D α : Type} {P : Phrase D α}
    (hP : ∀ d, Placed id cs (P.tokens d) → SecondsHold id cs (P.conflicts d)) (ds : List D)
    (h : Placed id cs (P.list.tokens ds)) : SecondsHold id cs (P.list.conflicts ds) := by
  induction ds with
  | nil => exact List.forall_mem_nil _
  | cons d ds ih => exact List.forall_mem_append.mpr ⟨hP d h.left, ih h.right⟩

mutual

theorem Statement.holds_conflicts : ∀ d : Statement, Placed id cs d.tokens → SecondsHold id cs d.conflicts
  | .config d, h | .menuconfig d, h => holds_conflicts_entry d h
  | .choice d, h =>
    holds_conflicts_list (P := entryPhrase .config) holds_conflicts_entry (d.first :: d.more) h.tail.right.left
  | .menu _ _ _ body _, h => Statement.holds_conflicts_all body h.tail.tail.right.left
  | .ifBlock _ _ body _, h => Statement.holds_conflicts_all body h.tail.right.left
  | .comment _, _ | .source _, _ => List.forall_mem_nil _

theorem Statement.holds_conflicts_all : ∀ ds : List Statement, Placed id cs (tokensAll ds) →
    SecondsHold id cs (conflictsAll ds)
  | [], _ => List.forall_mem_nil _
  | d :: ds, h => List.forall_mem_append.mpr ⟨d.holds_conflicts h.left, Statement.holds_conflicts_all ds h.right⟩

end

theorem File.holds_conflicts (d : File) (h : Placed id cs ((File.phrase id).tokens d)) :
    SecondsHold id cs ((File.phrase id).conflicts d) := by
  show SecondsHold id cs (Statement.phrase.list.conflicts d.statements)
  rw [← Statement.conflictsAll_eq]
  exact Statement.holds_conflicts_all d.statements (Statement.tokensAll_eq d.statements ▸ h.right)

end Derivation

/-- The span of the end of the input lies in the text, though it may end before it starts. -/
theorem liesIn_endSpan {id : FileId} {cs : List Char} {ts : List Lexed} (h : Placed id cs ts) :
    (endSpan (.ofChars id cs) ts).LiesIn cs := by
  have hspan (stop : Nat) : (Locator.ofChars id cs).span (Text.byteLength cs) stop =
      ⟨id, Text.byteLength cs, stop, Text.lineAt cs, Text.columnAt cs⟩ := by
    have hposition := Locator.span_append id cs [] stop
    rwa [List.append_nil] at hposition
  have hend : ∃ before after, cs = before ++ after ∧
      (ts.getLast?.map (·.span.stop)).getD (Text.byteLength cs) = Text.byteLength before := by
    cases hlast : ts.getLast? with
    | none => exact ⟨cs, [], (List.append_nil cs).symm, rfl⟩
    | some last =>
      obtain ⟨piece, ⟨before, after, hcs, hpiece⟩, -⟩ := h.holds last (List.mem_of_getLast? hlast)
      exact ⟨before ++ piece, after, hcs, congrArg Span.stop hpiece⟩
  rw [endSpan, show (Locator.ofChars id cs).size = Text.byteLength cs from rfl, hspan]
  exact ⟨⟨cs, [], (List.append_nil cs).symm, rfl, rfl, rfl⟩, hend, .inr rfl⟩

theorem liesIn_ofFurthest {id : FileId} {cs : List Char} {ts : List Lexed} (h : Placed id cs ts) (m : Furthest) :
    (ParseError.ofFurthest (.ofChars id cs) ts m).span.LiesIn cs := by
  unfold ParseError.ofFurthest
  cases hfound : ts[m.index]? with
  | none => exact liesIn_endSpan h
  | some t => exact (h.holds t (List.mem_of_getElem? hfound)).span.liesIn

section Texts

variable {D α : Type} {p : Reader α} {P : Phrase D α} {follow : Token → Bool} {id : FileId}

/-- An error of the parser is at a token, at the second type of an entry or at the end of the input. -/
theorem Reads.liesIn_of_parse {cs : List Char} {ts : List Lexed} {e : ParseError} (hp : ∀ n, Reads n p P follow)
    (hP : ∀ d, Placed id cs (P.tokens d) → Derivation.SecondsHold id cs (P.conflicts d)) (hplaced : Placed id cs ts)
    (h : p.parse (.ofChars id cs) ts = .error e) : e.span.LiesIn cs := by
  simp only [Reader.parse] at h
  split at h
  · rename_i htaken
    obtain rfl := Except.error.inj h
    obtain ⟨d, rest, hd, ht⟩ := (hp _).sound (Nat.lt_succ_self _) htaken
    obtain rfl : ts = P.tokens d ++ rest := hd
    obtain ⟨-, -, hconflicts⟩ := Taken.mk.inj ht
    exact (hP d hplaced.left _ (hconflicts ▸ List.mem_cons_self)).liesIn
  · cases h
  · obtain rfl := Except.error.inj h
    exact liesIn_ofFurthest hplaced _

theorem Reads.liesIn_of_parseText {text : String} {e : SyntaxError} (hp : ∀ n, Reads n p P follow)
    (hP : ∀ d, Placed id text.toList (P.tokens d) → Derivation.SecondsHold id text.toList (P.conflicts d))
    (h : p.parseText id text = .error e) : e.span.LiesIn text.toList := by
  cases htokens : tokenize (.ofChars id text.toList) text.toList with
  | error e' =>
    have hlex : p.parseText id text = .error (.lex e') := by
      simp only [Reader.parseText, htokens]
    obtain rfl := Except.error.inj (h.symm.trans hlex)
    exact (holds_of_tokenize_error htokens).liesIn
  | ok ts =>
    cases e with
    | lex e' =>
      simp only [Reader.parseText, htokens] at h
      cases hparse : p.parse (.ofChars id text.toList) ts <;> rw [hparse] at h <;> cases h
    | parse e' =>
      exact Reads.liesIn_of_parse hp hP (placed_of_tokenize htokens) (Reader.parse_of_parseText_error htokens h)

end Texts

/-- The error of a text lies in it. -/
theorem liesIn_of_parse_error {id : FileId} {text : String} {e : SyntaxError} (h : parse id text = .error e) :
    e.span.LiesIn text.toList :=
  Reads.liesIn_of_parseText (fun _ => Derivation.reads_file id) Derivation.File.holds_conflicts h

theorem liesIn_of_parseExpr_error {text : String} {e : SyntaxError} (h : parseExpr text = .error e) :
    e.span.LiesIn text.toList :=
  Reads.liesIn_of_parseText (fun _ => Derivation.reads_expression) (fun _ _ => List.forall_mem_nil _) h

/-! ## The file of an error -/

/-- In every file a text has the same error. -/
theorem parse_error_inFile {id : FileId} {text : String} {e : SyntaxError} (h : parse id text = .error e)
    (id' : FileId) : parse id' text = .error (e.mapSpan (Span.inFile id')) := by
  rw [parse_inFile id, h]
  rfl

theorem file_of_parse_error {id : FileId} {text : String} {e : SyntaxError} (h : parse id text = .error e) :
    e.span.file = id := by
  have heq : e = e.mapSpan (Span.inFile id) := Except.error.inj (h.symm.trans (parse_error_inFile h id))
  rw [heq, SyntaxError.span_mapSpan]
  rfl

end KconfigLang
