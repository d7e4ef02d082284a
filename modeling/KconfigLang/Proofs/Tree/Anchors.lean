import KconfigLang.Proofs.Tree.Spans

/-!
# Anchors

What ties a tree to the text it was read from: its spans, and beside a span the text that the tree keeps as it is
written, which is the name of a symbol or a literal with its quotes.

- `Anchor`: a span with the text it covers, where the tree keeps it.
- `Stmt.anchors`, `Root.anchors`: the anchors of a tree, one for each of its spans.
- `Root.map_span_anchors`: so the spans of the anchors are the spans of the tree.
-/

namespace KconfigLang

/-- A span, with the text that it covers where the tree keeps that. -/
structure Anchor where
  /-- The span. -/
  span : Span
  /-- The text, as it is written. -/
  text : Option String
  deriving DecidableEq, Repr, Inhabited

/-- A span whose text is not kept. -/
def Span.anchor (s : Span) : Anchor :=
  ⟨s, none⟩

/-- The anchor of a symbol name. -/
def Ident.anchor (id : Ident) : Anchor :=
  ⟨id.span, some id.name⟩

/-- The anchor of a string. -/
def StringNode.anchor (s : StringNode) : Anchor :=
  ⟨s.span, some s.raw⟩

/-! ## Anchors of trees -/

/-- The anchors of an expression. -/
def Expr.anchors : Expr → List Anchor
  | .symbol id => [id.anchor]
  | .string lit => [lit.anchor]
  | .bool _ s | .tristate _ s | .int _ s | .hex _ s => [s.anchor]
  | .not operand s => s.anchor :: operand.anchors
  | .binary lhs _ rhs s => s.anchor :: (lhs.anchors ++ rhs.anchors)

/-- The anchors of an optional condition. -/
def Expr.optionAnchors (condition : Option Expr) : List Anchor :=
  condition.toList.flatMap Expr.anchors

/-- The anchors of a property. -/
def Property.anchors : Property → List Anchor
  | .type d => d.span.anchor :: (d.prompt.toList.map StringNode.anchor ++ Expr.optionAnchors d.condition)
  | .prompt text condition s => s.anchor :: text.anchor :: Expr.optionAnchors condition
  | .default v | .defBool v | .defTristate v =>
    v.span.anchor :: (v.value.anchors ++ Expr.optionAnchors v.condition)
  | .dependsOn condition s | .visible condition s => s.anchor :: condition.anchors
  | .select r | .imply r | .defaultMember r =>
    r.span.anchor :: r.symbol.anchor :: Expr.optionAnchors r.condition
  | .range low high condition s =>
    s.anchor :: (low.anchors ++ high.anchors ++ Expr.optionAnchors condition)
  | .help _ s => [s.anchor]
  | .option _ value s => s.anchor :: value.toList.map StringNode.anchor

/-- The anchors of an entry. -/
def Config.anchors (c : Config) : List Anchor :=
  c.span.anchor :: c.symbol.anchor :: c.properties.flatMap Property.anchors

/-- The anchors of a choice. -/
def Choice.anchors (c : Choice) : List Anchor :=
  c.span.anchor :: (c.properties.flatMap Property.anchors ++ c.members.flatMap Config.anchors)

/-- The anchors of the head of a menu. -/
def Menu.anchors (m : Menu) : List Anchor :=
  m.span.anchor :: m.title.anchor :: m.properties.flatMap Property.anchors

/-- The anchors of an inclusion. -/
def Source.anchors (s : Source) : List Anchor :=
  [s.span.anchor, s.path.anchor]

/-- The anchors of a comment. -/
def Comment.anchors (c : Comment) : List Anchor :=
  c.span.anchor :: c.text.anchor :: c.properties.flatMap Property.anchors

mutual

/-- The anchors of a statement. -/
def Stmt.anchors : Stmt → List Anchor
  | .config c | .menuconfig c => c.anchors
  | .choice c => c.anchors
  | .menu m body => m.anchors ++ Stmt.anchorsAll body
  | .ifBlock condition body s => (s.anchor :: condition.anchors) ++ Stmt.anchorsAll body
  | .source s => s.anchors
  | .comment c => c.anchors

/-- The anchors of a block. -/
def Stmt.anchorsAll : List Stmt → List Anchor
  | [] => []
  | s :: ss => Stmt.anchors s ++ Stmt.anchorsAll ss

end

/-- The anchors of a title. -/
def MainMenu.anchors (m : MainMenu) : List Anchor :=
  [m.span.anchor, m.title.anchor]

/-- The anchors of the tree of a file. -/
def Root.anchors (r : Root) : List Anchor :=
  r.mainMenu.toList.flatMap MainMenu.anchors ++ Stmt.anchorsAll r.statements

theorem Stmt.anchorsAll_append (ss ts : List Stmt) :
    anchorsAll (ss ++ ts) = anchorsAll ss ++ anchorsAll ts := by
  induction ss with
  | nil => rfl
  | cons s ss ih => rw [List.cons_append, anchorsAll, anchorsAll, ih, List.append_assoc]

/-! ## Their spans -/

@[simp] theorem Span.span_anchor (s : Span) : s.anchor.span = s := rfl

@[simp] theorem Ident.span_anchor (id : Ident) : id.anchor.span = id.span := rfl

@[simp] theorem StringNode.span_anchor (s : StringNode) : s.anchor.span = s.span := rfl

@[simp] theorem Expr.map_span_anchors (e : Expr) : e.anchors.map Anchor.span = e.spans := by
  induction e with
  | not operand s ih => simp [anchors, spans, ih]
  | binary lhs op rhs s ih ih' => simp [anchors, spans, ih, ih']
  | _ => rfl

@[simp] theorem Expr.map_span_optionAnchors (condition : Option Expr) :
    (optionAnchors condition).map Anchor.span = optionSpans condition := by
  cases condition <;> simp [optionAnchors, optionSpans]

@[simp] theorem Property.map_span_anchors (p : Property) : p.anchors.map Anchor.span = p.spans := by
  cases p <;> simp [anchors, spans]

@[simp] theorem Property.map_span_flatMap_anchors (ps : List Property) :
    (ps.flatMap anchors).map Anchor.span = ps.flatMap spans := by
  simp [List.map_flatMap]

@[simp] theorem Config.map_span_anchors (c : Config) : c.anchors.map Anchor.span = c.spans := by
  simp [anchors, spans]

@[simp] theorem Menu.map_span_anchors (m : Menu) : m.anchors.map Anchor.span = m.spans := by
  simp [anchors, spans]

mutual

theorem Stmt.map_span_anchors : ∀ s : Stmt, s.anchors.map Anchor.span = s.spans
  | .config c | .menuconfig c => by simp [Stmt.anchors, Stmt.spans]
  | .choice c => by simp [Stmt.anchors, Choice.anchors, Stmt.spans, List.map_flatMap]
  | .menu m body => by simp [Stmt.anchors, Stmt.spans, Stmt.map_span_anchorsAll body]
  | .ifBlock condition body s => by simp [Stmt.anchors, Stmt.spans, Stmt.map_span_anchorsAll body]
  | .source s => rfl
  | .comment c => by simp [Stmt.anchors, Comment.anchors, Stmt.spans]

theorem Stmt.map_span_anchorsAll : ∀ block : List Stmt,
    (Stmt.anchorsAll block).map Anchor.span = Stmt.spansAll block
  | [] => rfl
  | s :: ss => by
    rw [Stmt.anchorsAll, Stmt.spansAll, List.map_append, Stmt.map_span_anchors s, Stmt.map_span_anchorsAll ss]

end

/-- The spans of the anchors of a tree are its spans. -/
theorem Root.map_span_anchors (r : Root) : r.anchors.map Anchor.span = r.spans := by
  have htitle (m : Option MainMenu) :
      (m.toList.flatMap MainMenu.anchors).map Anchor.span = m.toList.flatMap MainMenu.spans := by
    cases m <;> rfl
  rw [anchors, spans, List.map_append, htitle, Stmt.map_span_anchorsAll]

end KconfigLang
