import KconfigLang.Proofs.Grammar.ErrorPlace
import KconfigLang.Proofs.Grammar.Placement

/-!
# The inclusions of a text

The inclusions of a file, at any nesting, are those that its tokens write, in order; so they do not overlap, and the
span of an inclusion is that of no other one.

- `inclusions`: all inclusions of a block.
- `Statement.sourceLines`: those of a derivation; `inclusions_tree`: they are the inclusions of its tree.
- `Statement.sourceLines_sublist`: their tokens are tokens of the derivation, in order.
- `Span.CoversInclusion`: a span covers one inclusion of a text; `coversInclusion_of_mem`: so does that of each
  inclusion.
-/

namespace KconfigLang

/-! ## Inclusions of a tree -/

/-- The inclusion that a statement is. -/
def Stmt.source? : Stmt → Option Source
  | .source s => some s
  | _ => none

/-- All inclusions of a block in order. -/
def inclusions (block : List Stmt) : List Source :=
  (Stmt.walkAll block).filterMap Stmt.source?

theorem Stmt.source?_eq_some_iff {s : Stmt} {source : Source} : s.source? = some source ↔ s = .source source := by
  cases s <;> simp [source?]

theorem mem_inclusions {block : List Stmt} {source : Source} :
    source ∈ inclusions block ↔ .source source ∈ Stmt.walkAll block := by
  simp [inclusions, Stmt.source?_eq_some_iff]

namespace Derivation

/-! ## Inclusions of a derivation -/

mutual

/-- The inclusions of a statement in order. -/
def Statement.sourceLines : Statement → List SourceLine
  | .menu _ _ _ body _ | .ifBlock _ _ body _ => sourceLinesAll body
  | .source d => [d]
  | .config _ | .menuconfig _ | .choice _ | .comment _ => []

/-- The inclusions of a block in order. -/
def Statement.sourceLinesAll : List Statement → List SourceLine
  | [] => []
  | d :: ds => d.sourceLines ++ sourceLinesAll ds

end

mutual

/-- The inclusions of a tree are those of its derivation. -/
theorem Statement.inclusions_tree : ∀ d : Statement,
    (Stmt.walk d.tree).filterMap Stmt.source? = d.sourceLines.map sourcePhrase.tree
  | .config _ | .menuconfig _ | .choice _ | .comment _ | .source _ => rfl
  | .menu _ _ _ body _ => Statement.inclusions_treeAll body
  | .ifBlock _ _ body _ => Statement.inclusions_treeAll body

theorem Statement.inclusions_treeAll : ∀ ds : List Statement,
    inclusions (treeAll ds) = (sourceLinesAll ds).map sourcePhrase.tree
  | [] => rfl
  | d :: ds => by
    rw [sourceLinesAll, List.map_append, ← Statement.inclusions_tree d, ← Statement.inclusions_treeAll ds]
    exact List.filterMap_append

end

theorem Statement.body_infix_menu (pos : Span) (title : StringNode) (lines : List MenuLine)
    (body : List Statement) (stop : Span) : tokensAll body <:+: (Statement.menu pos title lines body stop).tokens :=
  ⟨⟨.keyword .menu, pos⟩ :: stringToken title :: MenuLine.phrase.list.tokens lines, [⟨.keyword .endmenu, stop⟩],
    by simp [tokens]⟩

theorem Statement.body_infix_ifBlock (pos : Span) (cond : Disjunction) (body : List Statement) (stop : Span) :
    tokensAll body <:+: (Statement.ifBlock pos cond body stop).tokens :=
  ⟨⟨.keyword .ifBlock, pos⟩ :: cond.tokens, [⟨.keyword .endif, stop⟩], by simp [tokens]⟩

mutual

/-- The tokens of the inclusions are among those of a derivation, in the same order. -/
theorem Statement.sourceLines_sublist : ∀ d : Statement, (d.sourceLines.flatMap sourcePhrase.tokens).Sublist d.tokens
  | .config _ | .menuconfig _ | .choice _ | .comment _ => List.nil_sublist _
  | .source d => by simp [sourceLines, tokens]
  | .menu _ _ _ body _ => (Statement.sourceLinesAll_sublist body).trans (body_infix_menu ..).sublist
  | .ifBlock _ _ body _ => (Statement.sourceLinesAll_sublist body).trans (body_infix_ifBlock ..).sublist

theorem Statement.sourceLinesAll_sublist : ∀ ds : List Statement,
    ((sourceLinesAll ds).flatMap sourcePhrase.tokens).Sublist (tokensAll ds)
  | [] => .slnil
  | d :: ds => by
    rw [sourceLinesAll, List.flatMap_append]
    exact (Statement.sourceLines_sublist d).append (Statement.sourceLinesAll_sublist ds)

end

mutual

/-- The tokens of an inclusion stand together. -/
theorem Statement.sourceLine_infix : ∀ d : Statement, ∀ l ∈ d.sourceLines, sourcePhrase.tokens l <:+: d.tokens
  | .config _, _, hl | .menuconfig _, _, hl | .choice _, _, hl | .comment _, _, hl => nomatch hl
  | .source d, l, hl => by
    obtain rfl := List.mem_singleton.mp hl
    exact List.infix_rfl
  | .menu _ _ _ body _, l, hl => (Statement.sourceLine_infix_all body l hl).trans (body_infix_menu ..)
  | .ifBlock _ _ body _, l, hl => (Statement.sourceLine_infix_all body l hl).trans (body_infix_ifBlock ..)

theorem Statement.sourceLine_infix_all : ∀ ds : List Statement, ∀ l ∈ sourceLinesAll ds,
    sourcePhrase.tokens l <:+: tokensAll ds
  | [], _, hl => nomatch hl
  | d :: ds, l, hl => by
    rcases List.mem_append.mp hl with hl | hl
    · exact (Statement.sourceLine_infix d l hl).trans (List.prefix_append _ _).isInfix
    · exact (Statement.sourceLine_infix_all ds l hl).trans (List.suffix_append _ _).isInfix

end

/-! ## Their spans -/

/-- Inclusions whose tokens are in order do not overlap. -/
theorem ordered_sourceLines {ls : List SourceLine}
    (h : (ls.flatMap sourcePhrase.tokens).Pairwise (·.span.stop ≤ ·.span.start)) :
    (ls.map sourcePhrase.tree).Pairwise (·.span.stop ≤ ·.span.start) := by
  rw [List.pairwise_flatMap] at h
  refine List.pairwise_map.mpr (h.2.imp fun {l l'} hlater => ?_)
  exact hlater (stringToken l.path) (by simp [sourcePhrase]) ⟨.keyword (sourceKeyword l'.kind), l'.pos⟩
    (by simp [sourcePhrase])

end Derivation

open KconfigLang.Derivation

/-! ## The span of an inclusion -/

/-- Two spans have a byte in common. -/
def Span.Overlaps (s t : Span) : Prop :=
  s.start < t.stop ∧ t.start < s.stop

instance (s t : Span) : Decidable (s.Overlaps t) :=
  inferInstanceAs (Decidable (_ ∧ _))

/-- A span covers an inclusion of a text, from its keyword to the end of its path, and nothing of another one. -/
structure Span.CoversInclusion (span : Span) (text : String) (source : Source) : Prop where
  eq : span = source.span
  written : ∃ before pos after, tokenize (.ofChars span.file text.toList) text.toList =
      .ok (before ++ ⟨.keyword (sourceKeyword source.kind), pos⟩ :: stringToken source.path :: after) ∧
    span = { pos with stop := source.path.span.stop }
  only : ∃ root, parse span.file text = .ok root ∧
    (inclusions root.statements).filter (·.span.Overlaps span) = [source]

/-- Where inclusions do not overlap, nothing of another one is in the span of one that is not empty. -/
theorem filter_overlaps_of_mem {ss : List Source} {s : Source} (h : ss.Pairwise (·.span.stop ≤ ·.span.start))
    (hs : s ∈ ss) (hlt : s.span.start < s.span.stop) : ss.filter (·.span.Overlaps s.span) = [s] := by
  obtain ⟨before, after, rfl⟩ := List.append_of_mem hs
  obtain ⟨-, hafter, hbefore⟩ := List.pairwise_append.mp h
  have hbefore' : before.filter (·.span.Overlaps s.span) = [] := by
    refine List.filter_eq_nil_iff.mpr fun t ht hoverlaps => ?_
    exact Nat.not_lt_of_le (hbefore t ht s List.mem_cons_self) (of_decide_eq_true hoverlaps).2
  have hafter' : after.filter (·.span.Overlaps s.span) = [] := by
    refine List.filter_eq_nil_iff.mpr fun t ht hoverlaps => ?_
    exact Nat.not_lt_of_le ((List.pairwise_cons.mp hafter).1 t ht) (of_decide_eq_true hoverlaps).1
  rw [List.filter_append, hbefore', List.nil_append, List.filter_cons_of_pos (by simpa using ⟨hlt, hlt⟩), hafter']

theorem Derivation.File.inclusions_tree (id : FileId) (d : File) :
    inclusions ((File.phrase id).tree d).statements =
      (Statement.sourceLinesAll d.statements).map sourcePhrase.tree := by
  rw [← Statement.inclusions_treeAll, Statement.treeAll_eq]
  rfl

theorem Derivation.File.tokensAll_suffix (id : FileId) (d : File) :
    Statement.tokensAll d.statements <:+ (File.phrase id).tokens d :=
  ⟨titlePhrase.option.tokens d.title, by rw [Statement.tokensAll_eq]; rfl⟩

section Text

variable {id : FileId} {text : String}

/-- An inclusion that is written in a text has a span in it that is not empty. -/
theorem span_of_written {before after : List Lexed} {l : SourceLine}
    (h : tokenize (.ofChars id text.toList) text.toList = .ok (before ++ (sourcePhrase.tokens l ++ after))) :
    l.pos.file = id ∧ (sourcePhrase.tree l).span.start < (sourcePhrase.tree l).span.stop ∧
      (sourcePhrase.tree l).span.anchor.Holds id text.toList := by
  have hplaced : Placed id text.toList (sourcePhrase.tokens l) := (placed_of_tokenize h).right.left
  refine ⟨?_, ?_, hplaced.spanOf⟩
  · obtain ⟨piece, ⟨_, _, _, hspan⟩, -⟩ := hplaced.head
    exact congrArg Span.file hspan
  · have hstarts := (List.pairwise_append.mp (starts_of_tokenize h).1).2.1
    have hfirst : l.pos.start < l.path.span.start := (List.pairwise_cons.mp hstarts).1 (stringToken l.path) (by simp)
    obtain ⟨piece, hpath, -⟩ := hplaced.tail.head
    exact Nat.lt_of_lt_of_le hfirst hpath.start_le_stop

/-- The inclusions of a text do not overlap, because their tokens do not. -/
theorem ordered_inclusions {root : Root} (h : parse id text = .ok root) :
    (inclusions root.statements).Pairwise (·.span.stop ≤ ·.span.start) := by
  obtain ⟨d, htokens, rfl, -⟩ := (parse_eq_ok_iff id text root).mp h
  rw [File.inclusions_tree]
  exact ordered_sourceLines ((placed_of_tokenize htokens).ordered.sublist
    ((Statement.sourceLinesAll_sublist d.statements).trans (File.tokensAll_suffix id d).sublist))

/-- The span of an inclusion covers it. -/
theorem coversInclusion_of_mem {root : Root} {source : Source} (h : parse id text = .ok root)
    (hs : source ∈ inclusions root.statements) :
    source.span.file = id ∧ source.span.CoversInclusion text source := by
  obtain ⟨d, htokens, rfl, -⟩ := (parse_eq_ok_iff id text root).mp h
  obtain ⟨l, hl, rfl⟩ := List.mem_map.mp (File.inclusions_tree id d ▸ hs)
  obtain ⟨before, after, hsplit⟩ :=
    (Statement.sourceLine_infix_all d.statements l hl).trans (File.tokensAll_suffix id d).isInfix
  rw [← hsplit, List.append_assoc] at htokens
  obtain ⟨hfile, hlt, -⟩ := span_of_written htokens
  have hfile' : (sourcePhrase.tree l).span.file = id := hfile
  refine ⟨hfile', rfl, ⟨before, l.pos, after, ?_, rfl⟩, _, ?_, filter_overlaps_of_mem (ordered_inclusions h) hs hlt⟩
  · rw [hfile', htokens]
    rfl
  · rw [hfile', h]

/-- What covers an inclusion is a piece of the text. -/
theorem Span.CoversInclusion.holds {span : Span} {source : Source} (h : span.CoversInclusion text source) :
    span.anchor.Holds span.file text.toList := by
  obtain ⟨before, pos, after, htokens, hspan⟩ := h.written
  obtain ⟨-, -, hholds⟩ := span_of_written (l := ⟨source.kind, pos, source.path⟩) htokens
  have heq : (sourcePhrase.tree ⟨source.kind, pos, source.path⟩).span = span := hspan.symm
  rwa [heq] at hholds

end Text

end KconfigLang
