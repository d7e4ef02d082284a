import KconfigLang.Proofs.Grammar.Acceptance
import KconfigLang.Proofs.Text.Position
import KconfigLang.Proofs.Token.MaximalMunch
import KconfigLang.Proofs.Token.Tiling
import KconfigLang.Proofs.Tree.Anchors

/-!
# Where nodes stand

The spans of a tree are those of pieces of the text that it was read from, and what the tree keeps of the text
is such a piece.

- `Span.Covers`: the span of a piece of a text, with its position counted in the text.
- `Anchor.Holds`: an anchor has such a span, and the piece is what the tree keeps.
- `Placed`: tokens whose anchors hold and that follow each other.
- `holds_of_parse`: every anchor of a tree holds; one lemma for each phrase of the grammar.
-/

namespace KconfigLang

/-! ## Pieces of a text -/

/-- A span is that of a piece of a text; its position is the one counted in the text before the piece. -/
def Span.Covers (s : Span) (id : FileId) (cs piece : List Char) : Prop :=
  ∃ before after, cs = before ++ piece ++ after ∧ s = ⟨id, Text.byteLength before,
    Text.byteLength (before ++ piece), Text.lineAt before, Text.columnAt before⟩

/-- An anchor has the span of a piece of a text, and the piece is what the tree keeps, if it keeps it. -/
def Anchor.Holds (id : FileId) (cs : List Char) (a : Anchor) : Prop :=
  ∃ piece, a.span.Covers id cs piece ∧ ∀ text, a.text = some text → piece = text.toList

section Spans

variable {id : FileId} {cs p q : List Char} {s t : Span}

theorem Span.Covers.holds (h : s.Covers id cs p) : s.anchor.Holds id cs :=
  ⟨p, h, fun _ htext => absurd htext (Option.some_ne_none _).symm⟩

/-- An anchor holds for its span alone. -/
theorem Anchor.Holds.span {a : Anchor} (h : a.Holds id cs) : a.span.anchor.Holds id cs := by
  obtain ⟨piece, hcovers, -⟩ := h
  exact hcovers.holds

theorem Span.Covers.start_le_stop (h : s.Covers id cs p) : s.start ≤ s.stop := by
  obtain ⟨before, after, -, rfl⟩ := h
  simp

theorem Span.Covers.stop_le (h : s.Covers id cs p) : s.stop ≤ Text.byteLength cs := by
  obtain ⟨before, after, rfl, rfl⟩ := h
  rw [Text.byteLength_append (before ++ p)]
  exact Nat.le_add_right _ _

/-- From the start of one piece to the end of another one that does not end before. -/
theorem Span.Covers.extend (h : s.Covers id cs p) (h' : t.Covers id cs q) (hle : s.start ≤ t.stop) :
    Anchor.Holds id cs (Span.anchor { s with stop := t.stop }) := by
  obtain ⟨before, after, hcs, rfl⟩ := h
  obtain ⟨before', after', hcs', rfl⟩ := h'
  have hstart : before <+: cs := ⟨p ++ after, by rw [hcs, List.append_assoc]⟩
  obtain ⟨piece, hpiece⟩ := Text.prefix_of_byteLength_le hstart ⟨after', hcs'.symm⟩ hle
  refine ⟨piece, ⟨before, after', ?_, ?_⟩, fun _ htext => absurd htext (Option.some_ne_none _).symm⟩
  · rw [hpiece, ← hcs']
  · simp only [span_anchor, hpiece]

/-- The smallest span around two pieces is that of a piece. -/
theorem Anchor.Holds.join (h : s.anchor.Holds id cs) (h' : t.anchor.Holds id cs) :
    (s.join t).anchor.Holds id cs := by
  obtain ⟨p, hs, -⟩ := h
  obtain ⟨q, ht, -⟩ := h'
  have hsize : s.start ≤ s.stop := hs.start_le_stop
  have hsize' : t.start ≤ t.stop := ht.start_le_stop
  have hfile : s.file = id ∧ t.file = id := by
    obtain ⟨before, after, -, rfl⟩ := hs
    obtain ⟨before', after', -, rfl⟩ := ht
    exact ⟨rfl, rfl⟩
  by_cases hlt : t.start < s.start
  · have hjoin : s.join t = { t with stop := max s.stop t.stop } := by
      simp [Span.join, hlt, hfile]
    rw [hjoin]
    rcases Nat.le_total s.stop t.stop with hle | hle
    · rw [Nat.max_eq_right hle]
      exact ht.extend ht hsize'
    · rw [Nat.max_eq_left hle]
      exact ht.extend hs (show t.start ≤ s.stop by omega)
  · have hjoin : s.join t = { s with stop := max s.stop t.stop } := by
      simp [Span.join, hlt]
    rw [hjoin]
    rcases Nat.le_total s.stop t.stop with hle | hle
    · rw [Nat.max_eq_right hle]
      exact hs.extend ht (show s.start ≤ t.stop by omega)
    · rw [Nat.max_eq_left hle]
      exact hs.extend hs hsize

end Spans

/-! ## Tokens -/

/-- The anchor of a token. -/
def Lexed.anchor (t : Lexed) : Anchor :=
  ⟨t.span, t.token.kept?⟩

/-- Tokens of a text whose anchors hold and of which each ends before the next starts. -/
structure Placed (id : FileId) (cs : List Char) (ts : List Lexed) : Prop where
  holds : ∀ t ∈ ts, t.anchor.Holds id cs
  ordered : ts.Pairwise (·.span.stop ≤ ·.span.start)

section Tokens

variable {id : FileId} {cs : List Char}

/-- The span of some tokens ends with the last one. -/
theorem exists_spanOf_eq (t : Lexed) (ts : List Lexed) : ∃ last ∈ t :: ts, (t :: ts).getLast? = some last ∧
    spanOf (t :: ts) = { t.span with stop := last.span.stop } := by
  obtain ⟨last, hlast⟩ : ∃ last, (t :: ts).getLast? = some last := ⟨_, List.getLast?_cons⟩
  exact ⟨last, List.mem_of_getLast? hlast, hlast, by simp [spanOf, hlast]⟩

namespace Placed

variable {t : Lexed} {ts us : List Lexed}

theorem left (h : Placed id cs (ts ++ us)) : Placed id cs ts :=
  ⟨fun t ht => h.holds t (List.mem_append_left us ht), (List.pairwise_append.mp h.ordered).1⟩

theorem right (h : Placed id cs (ts ++ us)) : Placed id cs us :=
  ⟨fun t ht => h.holds t (List.mem_append_right ts ht), (List.pairwise_append.mp h.ordered).2.1⟩

theorem head (h : Placed id cs (t :: ts)) : t.anchor.Holds id cs :=
  h.holds t List.mem_cons_self

theorem tail (h : Placed id cs (t :: ts)) : Placed id cs ts :=
  ⟨fun u hu => h.holds u (List.mem_cons_of_mem t hu), h.ordered.of_cons⟩

theorem start_le_stop (h : Placed id cs ts) (ht : t ∈ ts) : t.span.start ≤ t.span.stop := by
  obtain ⟨piece, hcovers, -⟩ := h.holds t ht
  exact hcovers.start_le_stop

/-- No token starts before the first one. -/
theorem start_le (h : Placed id cs (t :: ts)) {u : Lexed} (hu : u ∈ t :: ts) : t.span.start ≤ u.span.start := by
  rcases List.mem_cons.mp hu with rfl | hmem
  · exact Nat.le_refl _
  · have hsize := h.start_le_stop List.mem_cons_self
    have hbefore := List.rel_of_pairwise_cons h.ordered hmem
    omega

/-- The span of some tokens is that of a piece of the text. -/
theorem spanOf (h : Placed id cs (t :: ts)) : (KconfigLang.spanOf (t :: ts)).anchor.Holds id cs := by
  obtain ⟨last, hmem, -, hspan⟩ := exists_spanOf_eq t ts
  obtain ⟨p, hfirst, -⟩ := h.head
  obtain ⟨q, hlast, -⟩ := h.holds last hmem
  have hstart := h.start_le hmem
  have hsize := h.start_le_stop hmem
  rw [hspan]
  exact hfirst.extend hlast (Nat.le_trans hstart hsize)

end Placed

/-- An item of a stream, be it a token or a failure, stands at a piece of the text that its content agrees with. -/
theorem StreamItem.exists_covers {item : StreamItem} (hitem : item ∈ (Cursor.ofChars cs).items) :
    ∃ piece after, ((Locator.ofChars id cs).span item.start item.stop).Covers id cs piece ∧
      item.Agrees piece after := by
  obtain ⟨before, piece, after, hcs, hstart, hstop, hagrees⟩ := Cursor.agrees_of_mem_items hitem
  rw [show (Cursor.ofChars cs).offset = 0 from rfl, Nat.zero_add] at hstart hstop
  have hcs' : cs = before ++ piece ++ after := hcs
  refine ⟨piece, after, ⟨before, after, hcs', ?_⟩, hagrees⟩
  have hposition := Locator.span_append id before (piece ++ after) item.stop
  rw [← List.append_assoc, ← hcs'] at hposition
  rw [hstart, hposition, hstop]

/-- The anchor of a token of a stream holds. -/
theorem StreamItem.holds_of_locate {item : StreamItem} {t : Lexed} (hitem : item ∈ (Cursor.ofChars cs).items)
    (h : item.locate (.ofChars id cs) = .ok t) : t.anchor.Holds id cs := by
  obtain ⟨hcontent, hspan⟩ := locate_eq_ok_iff.mp h
  obtain ⟨piece, after, hcovers, hagrees⟩ := exists_covers hitem
  simp only [StreamItem.Agrees, hcontent] at hagrees
  rw [← hspan] at hcovers
  exact ⟨piece, hcovers, hagrees.2⟩

/-- The tokens of a text stand where their spans say. -/
theorem placed_of_tokenize {ts : List Lexed} (h : tokenize (.ofChars id cs) cs = .ok ts) :
    Placed id cs ts := by
  refine ⟨fun t ht => ?_, ?_⟩
  · obtain ⟨item, hitem, hlocate⟩ := exists_located_of_mem h ht
    exact StreamItem.holds_of_locate hitem hlocate
  · have hranges : (Cursor.ofChars cs).items.map (fun item => (item.start, item.stop)) =
        ts.map fun t => (t.span.start, t.span.stop) := by
      rw [← List.forall₂_eq_eq_eq, List.forall₂_map_left_iff, List.forall₂_map_right_iff]
      refine (tokenize_eq_ok_iff.mp h).imp fun item t hlocate => ?_
      rw [(StreamItem.locate_eq_ok_iff.mp hlocate).2]
      rfl
    have hordered : ((Cursor.ofChars cs).items.map fun item => (item.start, item.stop)).Pairwise (·.2 ≤ ·.1) :=
      List.pairwise_map.mpr (Tiles.of_items (Cursor.ofChars cs)).pairwise
    exact List.pairwise_map.mp (hranges ▸ hordered)

end Tokens

/-! ## Expressions -/

/-- All anchors of a list hold. -/
def AllHold (id : FileId) (cs : List Char) (as : List Anchor) : Prop :=
  ∀ a ∈ as, a.Holds id cs

namespace AllHold

variable {id : FileId} {cs : List Char} {a : Anchor} {as bs : List Anchor}

theorem nil : AllHold id cs [] :=
  List.forall_mem_nil _

theorem cons (h : a.Holds id cs) (hs : AllHold id cs as) : AllHold id cs (a :: as) :=
  List.forall_mem_cons.mpr ⟨h, hs⟩

theorem append (h : AllHold id cs as) (h' : AllHold id cs bs) : AllHold id cs (as ++ bs) :=
  List.forall_mem_append.mpr ⟨h, h'⟩

end AllHold

@[simp] theorem Expr.anchors_tristateLiteral (e : Expr) : e.tristateLiteral.anchors = e.anchors := by
  cases e <;> rfl

namespace Derivation

variable {id : FileId} {cs : List Char}

theorem holds_span {e : Expr} (h : AllHold id cs e.anchors) : e.span.anchor.Holds id cs := by
  cases e <;> exact (List.forall_mem_cons.mp h).1.span

theorem holds_join {lhs rhs : Expr} (op : BinaryOp) (h : AllHold id cs lhs.anchors)
    (h' : AllHold id cs rhs.anchors) : AllHold id cs (lhs.join op rhs).anchors :=
  (h.append h').cons ((holds_span h).join (holds_span h'))

theorem holds_leaf (d : Leaf) (h : d.lexed.anchor.Holds id cs) : AllHold id cs d.tree.anchors := by
  rcases d with ⟨l, pos⟩ | name
  · cases l with
    | string value raw => exact AllHold.nil.cons h
    | _ => exact AllHold.nil.cons h.span
  · exact AllHold.nil.cons h

mutual

theorem Unary.holds : ∀ d : Unary, Placed id cs d.tokens → AllHold id cs d.tree.anchors
  | .not _ operand, h => (operand.holds h.tail).cons h.spanOf
  | .leaf operand, h => holds_leaf operand h.head
  | .parens _ inner _, h => inner.holds h.tail.left

theorem Comparison.holds : ∀ d : Comparison, Placed id cs d.tokens → AllHold id cs d.tree.anchors
  | .single operand, h => operand.holds h
  | .compare lhs op _ rhs, h => holds_join op.op (lhs.holds h.left) (rhs.holds h.right.tail)

theorem Conjunction.holds : ∀ d : Conjunction, Placed id cs d.tokens → AllHold id cs d.tree.anchors
  | .single operand, h => operand.holds h
  | .and lhs _ rhs, h => holds_join .and (lhs.holds h.left) (rhs.holds h.right.tail)

theorem Disjunction.holds : ∀ d : Disjunction, Placed id cs d.tokens → AllHold id cs d.tree.anchors
  | .single operand, h => operand.holds h
  | .or lhs _ rhs, h => holds_join .or (lhs.holds h.left) (rhs.holds h.right.tail)

end

/-! ## Lines -/

theorem holds_list {D α : Type} {P : Phrase D α} {anchors : α → List Anchor}
    (hP : ∀ d, Placed id cs (P.tokens d) → AllHold id cs (anchors (P.tree d))) (ds : List D)
    (h : Placed id cs (P.list.tokens ds)) : AllHold id cs ((P.list.tree ds).flatMap anchors) := by
  induction ds with
  | nil => exact AllHold.nil
  | cons d ds ih => exact (hP d h.left).append (ih h.right)

theorem holds_condition (d : Option Condition) (h : Placed id cs (Condition.phrase.option.tokens d)) :
    AllHold id cs (Expr.optionAnchors (Condition.phrase.option.tree d)) := by
  cases d with
  | none => exact AllHold.nil
  | some d => exact (d.expr.holds h.tail).append AllHold.nil

theorem holds_type (d : TypeLine) (h : Placed id cs (typePhrase.tokens d)) :
    AllHold id cs (typePhrase.tree d).anchors := by
  refine AllHold.cons h.spanOf ?_
  obtain ⟨kind, pos, _ | ⟨text, cond⟩⟩ := d
  · exact AllHold.nil
  · exact (holds_condition cond h.tail.tail).cons h.tail.head

theorem holds_prompt (d : PromptLine) (h : Placed id cs (promptPhrase.tokens d)) :
    AllHold id cs (promptPhrase.tree d).anchors :=
  ((holds_condition d.condition h.tail.tail).cons h.tail.head).cons h.spanOf

theorem holds_value {word : Keyword} {stored : Expr → Expr} (hstored : ∀ e, (stored e).anchors = e.anchors)
    (d : ValueLine) (h : Placed id cs ((valuePhrase word stored).tokens d)) :
    AllHold id cs ((spanOf ((valuePhrase word stored).tokens d)).anchor ::
      ((stored d.value.tree).anchors ++ Expr.optionAnchors (Condition.phrase.option.tree d.condition))) := by
  rw [hstored]
  exact ((d.value.holds h.tail.left).append (holds_condition d.condition h.tail.right)).cons h.spanOf

theorem holds_depends (d : DependsLine) (h : Placed id cs (dependsPhrase.tokens d)) :
    AllHold id cs (dependsPhrase.tree d).anchors :=
  (d.condition.holds h.tail.tail).cons h.spanOf

theorem holds_visible (d : VisibleLine) (h : Placed id cs (visiblePhrase.tokens d)) :
    AllHold id cs (visiblePhrase.tree d).anchors :=
  (d.condition.holds h.tail.tail).cons h.spanOf

theorem holds_reference {word : Keyword} (d : ReferenceLine)
    (h : Placed id cs ((referencePhrase word).tokens d)) :
    AllHold id cs ((spanOf ((referencePhrase word).tokens d)).anchor :: d.target.anchor ::
      Expr.optionAnchors (Condition.phrase.option.tree d.condition)) :=
  ((holds_condition d.condition h.tail.tail).cons h.tail.head).cons h.spanOf

theorem holds_range (d : RangeLine) (h : Placed id cs (rangePhrase.tokens d)) :
    AllHold id cs (rangePhrase.tree d).anchors :=
  (((holds_leaf d.low h.tail.head).append (holds_leaf d.high h.tail.tail.head)).append
    (holds_condition d.condition h.tail.tail.tail)).cons h.spanOf

theorem holds_help (d : HelpLine) (h : Placed id cs (helpPhrase.tokens d)) :
    AllHold id cs (helpPhrase.tree d).anchors :=
  AllHold.nil.cons h.head.span

theorem holds_option (d : OptionLine) (h : Placed id cs (optionPhrase.tokens d)) :
    AllHold id cs (optionPhrase.tree d).anchors := by
  refine AllHold.cons h.spanOf ?_
  obtain ⟨pos, name, namePos, _ | ⟨equals, value⟩⟩ := d
  · exact AllHold.nil
  · exact AllHold.nil.cons h.tail.tail.tail.head

theorem EntryLine.holds (d : EntryLine) (h : Placed id cs (EntryLine.phrase.tokens d)) :
    AllHold id cs (EntryLine.phrase.tree d).anchors := by
  cases d with
  | type d => exact holds_type d h
  | prompt d => exact holds_prompt d h
  | default d | defTristate d => exact holds_value Expr.anchors_tristateLiteral d h
  | defBool d => exact holds_value (fun _ => rfl) d h
  | dependsOn d => exact holds_depends d h
  | select d | imply d => exact holds_reference d h
  | range d => exact holds_range d h
  | help d => exact holds_help d h
  | option d => exact holds_option d h

theorem ChoiceLine.holds (d : ChoiceLine) (h : Placed id cs (ChoiceLine.phrase.tokens d)) :
    AllHold id cs (ChoiceLine.phrase.tree d).anchors := by
  cases d with
  | type d => exact holds_type d h
  | prompt d => exact holds_prompt d h
  | defaultMember d => exact holds_reference d h
  | dependsOn d => exact holds_depends d h
  | help d => exact holds_help d h
  | option d => exact holds_option d h

theorem MenuLine.holds (d : MenuLine) (h : Placed id cs (MenuLine.phrase.tokens d)) :
    AllHold id cs (MenuLine.phrase.tree d).anchors := by
  cases d with
  | dependsOn d => exact holds_depends d h
  | visible d => exact holds_visible d h

/-! ## Statements -/

theorem holds_entry {word : Keyword} (d : Entry) (h : Placed id cs ((entryPhrase word).tokens d)) :
    AllHold id cs ((entryPhrase word).tree d).anchors :=
  ((holds_list EntryLine.holds d.lines h.tail.tail).cons h.tail.head).cons h.spanOf

theorem holds_choice (d : ChoiceBlock) (h : Placed id cs (choicePhrase.tokens d)) :
    AllHold id cs (choicePhrase.tree d).anchors :=
  ((holds_list ChoiceLine.holds d.lines h.tail.left).append
    (holds_list (P := entryPhrase .config) holds_entry (d.first :: d.more) h.tail.right.left)).cons h.spanOf

theorem holds_comment (d : CommentLine) (h : Placed id cs (commentPhrase.tokens d)) :
    AllHold id cs (commentPhrase.tree d).anchors :=
  ((holds_list holds_depends d.lines h.tail.tail).cons h.tail.head).cons h.spanOf

theorem holds_source (d : SourceLine) (h : Placed id cs (sourcePhrase.tokens d)) :
    AllHold id cs (sourcePhrase.tree d).anchors :=
  (AllHold.nil.cons h.tail.head).cons h.spanOf

theorem holds_title (d : TitleLine) (h : Placed id cs (titlePhrase.tokens d)) :
    AllHold id cs (titlePhrase.tree d).anchors :=
  (AllHold.nil.cons h.tail.head).cons h.spanOf

mutual

theorem Statement.holds : ∀ d : Statement, Placed id cs d.tokens → AllHold id cs d.tree.anchors
  | .config d, h | .menuconfig d, h => holds_entry d h
  | .choice d, h => holds_choice d h
  | .comment d, h => holds_comment d h
  | .menu _ _ lines body _, h =>
    (((holds_list MenuLine.holds lines h.tail.tail.left).cons h.tail.head).cons h.spanOf).append
      (Statement.holds_all body h.tail.tail.right.left)
  | .ifBlock _ cond body _, h =>
    ((cond.holds h.tail.left).cons h.spanOf).append (Statement.holds_all body h.tail.right.left)
  | .source d, h => holds_source d h

theorem Statement.holds_all : ∀ ds : List Statement, Placed id cs (tokensAll ds) →
    AllHold id cs (Stmt.anchorsAll (treeAll ds))
  | [], _ => AllHold.nil
  | d :: ds, h => (d.holds h.left).append (Statement.holds_all ds h.right)

end

theorem File.holds (d : File) (h : Placed id cs ((File.phrase id).tokens d)) :
    AllHold id cs ((File.phrase id).tree d).anchors := by
  obtain ⟨title, statements⟩ := d
  refine AllHold.append ?_ ?_
  · cases title with
    | none => exact AllHold.nil
    | some title => exact (holds_title title h.left).append AllHold.nil
  · show AllHold id cs (Stmt.anchorsAll (Statement.phrase.list.tree statements))
    rw [← Statement.treeAll_eq]
    exact Statement.holds_all statements (Statement.tokensAll_eq statements ▸ h.right)

end Derivation

/-- The spans of a tree are those of pieces of its text, each with the position counted in the text; and a name
or a literal is what stands there. -/
theorem holds_of_parse {id : FileId} {text : String} {tree : Root} (h : parse id text = .ok tree) :
    AllHold id text.toList tree.anchors := by
  obtain ⟨d, htokens, rfl, -⟩ := (parse_eq_ok_iff id text tree).mp h
  exact Derivation.File.holds d (placed_of_tokenize htokens)

end KconfigLang
