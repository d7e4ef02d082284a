import KconfigLang.Proofs.Grammar.Placement
import KconfigLang.Proofs.Tree.Outline

/-!
# Nested spans

The spans of a tree are well nested. Most nodes have the span of the tokens that they are read from, but a binary
expression joins the spans of its operands, and parentheses around an expression leave no trace in its span. What
holds of all of them is that a span reaches from the start of one of the tokens to the end of one of them.

- `Span.Within`: a span reaches from a token to a token.
- `Placed.spanOf_contains`: the span of all tokens contains it.
- `Nests`: outlines that are nested and in order, with all their spans within some tokens.
- `Nests.node` and `Nests.join`: how the two kinds of nodes are put around their parts.
- `nested_of_parse`: the tree of a text; one lemma for each phrase of the grammar.
-/

namespace KconfigLang

/-- A span reaches from the start of one of some tokens to the end of one of them. -/
def Span.Within (s : Span) (ts : List Lexed) : Prop :=
  ∃ first ∈ ts, ∃ last ∈ ts, first.span.start ≤ last.span.stop ∧ s = { first.span with stop := last.span.stop }

section Tokens

variable {id : FileId} {cs : List Char} {t : Lexed} {ts us : List Lexed} {s s' : Span}

namespace Span.Within

theorem mono (h : s.Within ts) (hsub : ts ⊆ us) : s.Within us := by
  obtain ⟨first, hfirst, last, hlast, hle, hspan⟩ := h
  exact ⟨first, hsub hfirst, last, hsub hlast, hle, hspan⟩

theorem start_le_stop (h : s.Within ts) : s.start ≤ s.stop := by
  obtain ⟨first, -, last, -, hle, rfl⟩ := h
  exact hle

/-- From the start of one span to the end of another one. -/
theorem extend (h : s.Within ts) (h' : s'.Within us) (hle : s.start ≤ s'.stop) :
    Span.Within { s with stop := s'.stop } (ts ++ us) := by
  obtain ⟨first, hfirst, _, -, -, rfl⟩ := h
  obtain ⟨_, -, last, hlast, -, rfl⟩ := h'
  exact ⟨first, List.mem_append_left us hfirst, last, List.mem_append_right ts hlast, hle, rfl⟩

end Span.Within

namespace Placed

/-- The first token alone. -/
theorem single (h : Placed id cs (t :: ts)) : Placed id cs [t] := by
  have hsplit : Placed id cs ([t] ++ ts) := h
  exact hsplit.left

/-- What is within some tokens ends before what is within those behind them. -/
theorem stop_le_start (h : Placed id cs (ts ++ us)) (hs : s.Within ts) (hs' : s'.Within us) : s.stop ≤ s'.start := by
  obtain ⟨-, -, last, hlast, -, rfl⟩ := hs
  obtain ⟨first, hfirst, -, -, -, rfl⟩ := hs'
  exact (List.pairwise_append.mp h.ordered).2.2 last hlast first hfirst

/-- No token ends behind the last one. -/
theorem stop_le (h : Placed id cs ts) {last u : Lexed} (hlast : ts.getLast? = some last) (hu : u ∈ ts) :
    u.span.stop ≤ last.span.stop := by
  obtain ⟨init, rfl⟩ := List.getLast?_eq_some_iff.mp hlast
  rcases List.mem_append.mp hu with hinit | hmem
  · have hsize := h.start_le_stop (List.mem_of_getLast? hlast)
    have hbefore := (List.pairwise_append.mp h.ordered).2.2 u hinit last List.mem_cons_self
    omega
  · rw [List.mem_singleton.mp hmem]

/-- The span of some tokens is within them. -/
theorem spanOf_within (h : Placed id cs (t :: ts)) : (KconfigLang.spanOf (t :: ts)).Within (t :: ts) := by
  obtain ⟨last, hmem, hlast, hspan⟩ := exists_spanOf_eq t ts
  have hstart := h.start_le hmem
  have hsize := h.start_le_stop hmem
  exact ⟨t, List.mem_cons_self, last, hmem, Nat.le_trans hstart hsize, hspan⟩

/-- The span of some tokens contains all that is within them. -/
theorem spanOf_contains (h : Placed id cs (t :: ts)) (hs : s.Within (t :: ts)) :
    (KconfigLang.spanOf (t :: ts)).Contains s := by
  obtain ⟨last, -, hlast, hspan⟩ := exists_spanOf_eq t ts
  obtain ⟨first, hfirst, final, hfinal, -, rfl⟩ := hs
  rw [hspan]
  constructor
  · exact h.start_le hfirst
  · exact h.stop_le hlast hfinal

/-- The smallest span around two others that follow each other. -/
theorem join_eq (h : Placed id cs (ts ++ us)) (hs : s.Within ts) (hs' : s'.Within us) :
    s.join s' = { s with stop := s'.stop } := by
  have hsize := hs.start_le_stop
  have hsize' := hs'.start_le_stop
  have hbefore := h.stop_le_start hs hs'
  have hstart : ¬ s'.start < s.start := by omega
  have hstop : max s.stop s'.stop = s'.stop := by omega
  simp only [Span.join, if_neg hstart, hstop]

end Placed

/-! ## Outlines within tokens -/

/-- Outlines that are nested and in order, with all their spans within some tokens. -/
structure Nests (ts : List Lexed) (parts : List Outline) : Prop where
  within : ∀ s ∈ Outline.spansAll parts, s.Within ts
  ordered : parts.Pairwise Outline.Before
  nested : ∀ part ∈ parts, part.Nested

namespace Nests

variable {parts more : List Outline} {o p : Outline}

theorem nil : Nests ts [] :=
  ⟨List.forall_mem_nil _, .nil, List.forall_mem_nil _⟩

theorem mono (h : Nests ts parts) (hsub : ts ⊆ us) : Nests us parts :=
  ⟨fun s hs => (h.within s hs).mono hsub, h.ordered, h.nested⟩

/-- A token before the others that is no part of its own. -/
theorem skip (h : Nests ts parts) : Nests (t :: ts) parts :=
  h.mono (List.subset_cons_self t ts)

/-- Tokens behind the others that are no parts of their own. -/
theorem pad (h : Nests ts parts) : Nests (ts ++ us) parts :=
  h.mono (List.subset_append_left ts us)

theorem span_within (h : Nests ts parts) (ho : o ∈ parts) : o.span.Within ts := by
  refine h.within o.span ?_
  rw [Outline.spansAll_eq_flatMap]
  exact List.mem_flatMap_of_mem ho o.span_mem_spans

/-- Parts of some tokens and parts of those behind them. -/
theorem append (h : Nests ts parts) (h' : Nests us more) (hplaced : Placed id cs (ts ++ us)) :
    Nests (ts ++ us) (parts ++ more) := by
  refine ⟨?_, ?_, List.forall_mem_append.mpr ⟨h.nested, h'.nested⟩⟩
  · rw [Outline.spansAll_append]
    refine List.forall_mem_append.mpr ⟨h.pad.within, ?_⟩
    exact (h'.mono (List.subset_append_right ts us)).within
  · refine List.pairwise_append.mpr ⟨h.ordered, h'.ordered, fun o ho p hp => ?_⟩
    exact hplaced.stop_le_start (h.span_within ho) (h'.span_within hp)

/-- A node with the span of all the tokens. -/
theorem node (h : Nests (t :: ts) parts) (hplaced : Placed id cs (t :: ts)) :
    Nests (t :: ts) [.node (spanOf (t :: ts)) parts] := by
  refine ⟨?_, List.pairwise_singleton _ _, List.forall_mem_singleton.mpr ?_⟩
  · rw [Outline.spansAll_cons, Outline.spansAll_nil, List.append_nil, Outline.spans_node]
    exact List.forall_mem_cons.mpr ⟨hplaced.spanOf_within, h.within⟩
  · exact .node (fun part hpart => hplaced.spanOf_contains (h.span_within hpart)) h.ordered h.nested

/-- A node without parts that is one token. -/
theorem leaf (hplaced : Placed id cs (t :: ts)) : Nests [t] [.node t.span []] := by
  have hspan : spanOf [t] = t.span := rfl
  rw [← hspan]
  exact nil.node hplaced.single

/-- A node that is one token before the others. -/
theorem cons (h : Nests ts parts) (hplaced : Placed id cs (t :: ts)) :
    Nests (t :: ts) (.node t.span [] :: parts) :=
  (leaf hplaced).append h hplaced

/-- A node that joins the spans of its parts, with a token between them. -/
theorem join {op : Lexed} (h : Nests ts [o]) (h' : Nests us [p]) (hplaced : Placed id cs (ts ++ op :: us)) :
    Nests (ts ++ op :: us) [.node (o.span.join p.span) [o, p]] := by
  have hboth := h.append h'.skip hplaced
  have hleft := h.span_within List.mem_cons_self
  have hright : p.span.Within (op :: us) := h'.skip.span_within List.mem_cons_self
  have hsize := hleft.start_le_stop
  have hsize' := hright.start_le_stop
  have hbefore := hplaced.stop_le_start hleft hright
  rw [hplaced.join_eq hleft hright]
  refine ⟨?_, List.pairwise_singleton _ _, List.forall_mem_singleton.mpr (.node ?_ hboth.ordered hboth.nested)⟩
  · rw [Outline.spansAll_cons, Outline.spansAll_nil, List.append_nil, Outline.spans_node]
    exact List.forall_mem_cons.mpr ⟨hleft.extend hright (by omega), hboth.within⟩
  · refine List.forall_mem_cons.mpr ⟨⟨Nat.le_refl _, ?_⟩, List.forall_mem_singleton.mpr ⟨?_, Nat.le_refl _⟩⟩
    · show o.span.stop ≤ p.span.stop
      omega
    · show o.span.start ≤ p.span.start
      omega

end Nests

end Tokens

/-! ## Expressions -/

namespace Derivation

variable {id : FileId} {cs : List Char}

theorem nests_leaf (d : Leaf) (h : Placed id cs [d.lexed]) : Nests [d.lexed] [d.tree.outline] := by
  have hspan : d.tree.outline = .node d.lexed.span [] := by
    rcases d with ⟨l, pos⟩ | name
    · cases l <;> rfl
    · rfl
  rw [hspan]
  exact .leaf h

theorem nests_join {lhs rhs : Expr} {op : Lexed} {ts us : List Lexed} (operator : BinaryOp)
    (h : Nests ts [lhs.outline]) (h' : Nests us [rhs.outline]) (hplaced : Placed id cs (ts ++ op :: us)) :
    Nests (ts ++ op :: us) [(lhs.join operator rhs).outline] := by
  have hjoin := h.join h' hplaced
  rwa [Expr.span_outline, Expr.span_outline] at hjoin

mutual

theorem Unary.nests : ∀ d : Unary, Placed id cs d.tokens → Nests d.tokens [d.tree.outline]
  | .not _ operand, h => (operand.nests h.tail).skip.node h
  | .leaf operand, h => nests_leaf operand h
  | .parens _ inner _, h => (inner.nests h.tail.left).pad.skip

theorem Comparison.nests : ∀ d : Comparison, Placed id cs d.tokens → Nests d.tokens [d.tree.outline]
  | .single operand, h => operand.nests h
  | .compare lhs op _ rhs, h => nests_join op.op (lhs.nests h.left) (rhs.nests h.right.tail) h

theorem Conjunction.nests : ∀ d : Conjunction, Placed id cs d.tokens → Nests d.tokens [d.tree.outline]
  | .single operand, h => operand.nests h
  | .and lhs _ rhs, h => nests_join .and (lhs.nests h.left) (rhs.nests h.right.tail) h

theorem Disjunction.nests : ∀ d : Disjunction, Placed id cs d.tokens → Nests d.tokens [d.tree.outline]
  | .single operand, h => operand.nests h
  | .or lhs _ rhs, h => nests_join .or (lhs.nests h.left) (rhs.nests h.right.tail) h

end

/-! ## Lines -/

theorem nests_list {D α : Type} {P : Phrase D α} {outline : α → Outline}
    (hP : ∀ d, Placed id cs (P.tokens d) → Nests (P.tokens d) [outline (P.tree d)]) (ds : List D)
    (h : Placed id cs (P.list.tokens ds)) : Nests (P.list.tokens ds) ((P.list.tree ds).map outline) := by
  induction ds with
  | nil => exact .nil
  | cons d ds ih => exact (hP d h.left).append (ih h.right) h

theorem nests_condition (d : Option Condition) (h : Placed id cs (Condition.phrase.option.tokens d)) :
    Nests (Condition.phrase.option.tokens d) (Expr.optionOutlines (Condition.phrase.option.tree d)) := by
  cases d with
  | none => exact .nil
  | some d => exact (d.expr.nests h.tail).skip

theorem nests_type (d : TypeLine) (h : Placed id cs (typePhrase.tokens d)) :
    Nests (typePhrase.tokens d) [(typePhrase.tree d).outline] := by
  obtain ⟨kind, pos, _ | ⟨text, cond⟩⟩ := d
  · exact Nests.nil.node h
  · have hcond := nests_condition cond h.tail.tail
    exact (hcond.cons h.tail).skip.node h

theorem nests_prompt (d : PromptLine) (h : Placed id cs (promptPhrase.tokens d)) :
    Nests (promptPhrase.tokens d) [(promptPhrase.tree d).outline] := by
  have hcond := nests_condition d.condition h.tail.tail
  exact (hcond.cons h.tail).skip.node h

theorem nests_value {word : Keyword} {stored : Expr → Expr} (hstored : ∀ e, (stored e).outline = e.outline)
    (d : ValueLine) (h : Placed id cs ((valuePhrase word stored).tokens d)) :
    Nests ((valuePhrase word stored).tokens d) [.node (spanOf ((valuePhrase word stored).tokens d))
      ((stored d.value.tree).outline :: Expr.optionOutlines (Condition.phrase.option.tree d.condition))] := by
  have hvalue := d.value.nests h.tail.left
  have hcond := nests_condition d.condition h.tail.right
  rw [hstored]
  exact (hvalue.append hcond h.tail).skip.node h

theorem nests_depends (d : DependsLine) (h : Placed id cs (dependsPhrase.tokens d)) :
    Nests (dependsPhrase.tokens d) [(dependsPhrase.tree d).outline] :=
  (d.condition.nests h.tail.tail).skip.skip.node h

theorem nests_visible (d : VisibleLine) (h : Placed id cs (visiblePhrase.tokens d)) :
    Nests (visiblePhrase.tokens d) [(visiblePhrase.tree d).outline] :=
  (d.condition.nests h.tail.tail).skip.skip.node h

theorem nests_reference {word : Keyword} (d : ReferenceLine)
    (h : Placed id cs ((referencePhrase word).tokens d)) :
    Nests ((referencePhrase word).tokens d) [.node (spanOf ((referencePhrase word).tokens d))
      (d.target.outline :: Expr.optionOutlines (Condition.phrase.option.tree d.condition))] := by
  have hcond := nests_condition d.condition h.tail.tail
  exact (hcond.cons h.tail).skip.node h

theorem nests_range (d : RangeLine) (h : Placed id cs (rangePhrase.tokens d)) :
    Nests (rangePhrase.tokens d) [(rangePhrase.tree d).outline] := by
  have hcond := nests_condition d.condition h.tail.tail.tail
  have hlow := nests_leaf d.low h.tail.single
  have hhigh := nests_leaf d.high h.tail.tail.single
  have hbounds := hlow.append (hhigh.append hcond h.tail.tail) h.tail
  exact hbounds.skip.node h

theorem nests_help (d : HelpLine) (h : Placed id cs (helpPhrase.tokens d)) :
    Nests (helpPhrase.tokens d) [(helpPhrase.tree d).outline] :=
  .leaf h

theorem nests_option (d : OptionLine) (h : Placed id cs (optionPhrase.tokens d)) :
    Nests (optionPhrase.tokens d) [(optionPhrase.tree d).outline] := by
  obtain ⟨pos, name, namePos, _ | ⟨equals, value⟩⟩ := d
  · exact Nests.nil.node h
  · have hvalue : Nests [stringToken value] [value.outline] := .leaf h.tail.tail.tail
    exact hvalue.skip.skip.skip.node h

theorem EntryLine.nests (d : EntryLine) (h : Placed id cs (EntryLine.phrase.tokens d)) :
    Nests (EntryLine.phrase.tokens d) [(EntryLine.phrase.tree d).outline] := by
  cases d with
  | type d => exact nests_type d h
  | prompt d => exact nests_prompt d h
  | default d | defTristate d => exact nests_value Expr.outline_tristateLiteral d h
  | defBool d => exact nests_value (fun _ => rfl) d h
  | dependsOn d => exact nests_depends d h
  | select d | imply d => exact nests_reference d h
  | range d => exact nests_range d h
  | help d => exact nests_help d h
  | option d => exact nests_option d h

theorem ChoiceLine.nests (d : ChoiceLine) (h : Placed id cs (ChoiceLine.phrase.tokens d)) :
    Nests (ChoiceLine.phrase.tokens d) [(ChoiceLine.phrase.tree d).outline] := by
  cases d with
  | type d => exact nests_type d h
  | prompt d => exact nests_prompt d h
  | defaultMember d => exact nests_reference d h
  | dependsOn d => exact nests_depends d h
  | help d => exact nests_help d h
  | option d => exact nests_option d h

theorem MenuLine.nests (d : MenuLine) (h : Placed id cs (MenuLine.phrase.tokens d)) :
    Nests (MenuLine.phrase.tokens d) [(MenuLine.phrase.tree d).outline] := by
  cases d with
  | dependsOn d => exact nests_depends d h
  | visible d => exact nests_visible d h

/-! ## Statements -/

theorem nests_entry {word : Keyword} (d : Entry) (h : Placed id cs ((entryPhrase word).tokens d)) :
    Nests ((entryPhrase word).tokens d) [((entryPhrase word).tree d).outline] := by
  have hlines := nests_list EntryLine.nests d.lines h.tail.tail
  exact (hlines.cons h.tail).skip.node h

/-- The lines of a choice and its members stand between its two keywords. -/
theorem nests_choice (d : ChoiceBlock) (h : Placed id cs (choicePhrase.tokens d)) :
    Nests (choicePhrase.tokens d) [(choicePhrase.tree d).outline] := by
  have hlines := nests_list ChoiceLine.nests d.lines h.tail.left
  have hmembers := nests_list (P := entryPhrase .config) nests_entry (d.first :: d.more) h.tail.right.left
  exact (hlines.append hmembers.pad h.tail).skip.node h

theorem nests_comment (d : CommentLine) (h : Placed id cs (commentPhrase.tokens d)) :
    Nests (commentPhrase.tokens d) [(commentPhrase.tree d).outline] := by
  have hlines := nests_list nests_depends d.lines h.tail.tail
  exact (hlines.cons h.tail).skip.node h

theorem nests_source (d : SourceLine) (h : Placed id cs (sourcePhrase.tokens d)) :
    Nests (sourcePhrase.tokens d) [(sourcePhrase.tree d).outline] := by
  have hpath : Nests [stringToken d.path] [d.path.outline] := .leaf h.tail
  exact hpath.skip.node h

theorem nests_title (d : TitleLine) (h : Placed id cs (titlePhrase.tokens d)) :
    Nests (titlePhrase.tokens d) [(titlePhrase.tree d).outline] := by
  have htext : Nests [stringToken d.text] [d.text.outline] := .leaf h.tail
  exact htext.skip.node h

mutual

theorem Statement.nests : ∀ d : Statement, Placed id cs d.tokens → Nests d.tokens [d.tree.outline]
  | .config d, h | .menuconfig d, h => nests_entry d h
  | .choice d, h => nests_choice d h
  | .comment d, h => nests_comment d h
  | .menu _ _ lines body _, h => by
    have hlines := nests_list MenuLine.nests lines h.tail.tail.left
    have hbody := Statement.nests_all body h.tail.tail.right.left
    exact ((hlines.append hbody.pad h.tail.tail).cons h.tail).skip.node h
  | .ifBlock _ cond body _, h => by
    have hcond := cond.nests h.tail.left
    have hbody := Statement.nests_all body h.tail.right.left
    exact (hcond.append hbody.pad h.tail).skip.node h
  | .source d, h => nests_source d h

theorem Statement.nests_all : ∀ ds : List Statement, Placed id cs (tokensAll ds) →
    Nests (tokensAll ds) (Stmt.outlineAll (treeAll ds))
  | [], _ => .nil
  | d :: ds, h => (d.nests h.left).append (Statement.nests_all ds h.right) h

end

theorem File.nests (d : File) (h : Placed id cs ((File.phrase id).tokens d)) :
    Nests ((File.phrase id).tokens d) ((File.phrase id).tree d).outlines := by
  obtain ⟨title, statements⟩ := d
  have hstatements : Nests (Statement.phrase.list.tokens statements)
      (Stmt.outlineAll (Statement.phrase.list.tree statements)) := by
    rw [← Statement.treeAll_eq, ← Statement.tokensAll_eq]
    exact Statement.nests_all statements (Statement.tokensAll_eq statements ▸ h.right)
  cases title with
  | none => exact hstatements
  | some title => exact (nests_title title h.left).append hstatements h

end Derivation

/-- **The spans of a parsed tree are well nested.** Every span reaches from the start of a token to the end of a
token, and its line and column are those of its start. Every node contains its parts; the parts of a node, like the
title and the statements of a file, each end before the next one starts. -/
theorem nested_of_parse {id : FileId} {text : String} {tree : Root} (h : parse id text = .ok tree) :
    ∃ ts, tokenize (.ofChars id text.toList) text.toList = .ok ts ∧
      (∀ s ∈ tree.spans, s.Within ts ∧ ∃ piece, s.Covers id text.toList piece) ∧
      tree.outlines.Pairwise Outline.Before ∧ ∀ o ∈ tree.outlines, o.Nested := by
  have hholds := holds_of_parse h
  obtain ⟨d, htokens, rfl, -⟩ := (parse_eq_ok_iff id text tree).mp h
  have hnests := Derivation.File.nests d (placed_of_tokenize htokens)
  refine ⟨_, htokens, fun s hs => ⟨?_, ?_⟩, hnests.ordered, hnests.nested⟩
  · rw [← Root.spans_outlines] at hs
    exact hnests.within s hs
  · rw [← Root.map_span_anchors] at hs
    obtain ⟨a, ha, rfl⟩ := List.mem_map.mp hs
    obtain ⟨piece, hcovers, -⟩ := hholds a ha
    exact ⟨piece, hcovers⟩

/-- A menu whose expressions have parentheses around operands and around operators. -/
def parenthesesText : String :=
  "mainmenu \"T\"\nmenu \"M\"\n\tdepends on (A || B) && !(C)\nconfig D\n\tdefault (y) if ((E = 1))\nendmenu\n"

theorem nested_parenthesesText : ∃ tree, parse .root parenthesesText = .ok tree ∧
    ∃ ts, tokenize (.ofChars .root parenthesesText.toList) parenthesesText.toList = .ok ts ∧
      (∀ s ∈ tree.spans, s.Within ts ∧ ∃ piece, s.Covers .root parenthesesText.toList piece) ∧
      tree.outlines.Pairwise Outline.Before ∧ ∀ o ∈ tree.outlines, o.Nested := by
  have hok : (parse .root parenthesesText).isOk = true := by decide +kernel
  cases h : parse .root parenthesesText with
  | error e =>
    rw [h] at hok
    exact nomatch hok
  | ok tree => exact ⟨tree, rfl, nested_of_parse h⟩

end KconfigLang
