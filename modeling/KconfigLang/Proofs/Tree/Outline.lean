import KconfigLang.Proofs.Tree.Spans

/-!
# Outlines

The outline of a tree keeps of each node its span and its parts, in the order in which they are written.

- `Outline.Nested`: every node contains its parts, and of its parts each ends before the next starts.
- `Stmt.outline`, `Root.outlines`: the outlines of trees.
- `Root.spans_outlines`: the spans of an outline are those of its tree.
-/

namespace KconfigLang

/-- The span of a node, with the outlines of its parts. -/
inductive Outline where
  | node (span : Span) (parts : List Outline)

/-- A span contains another one. -/
def Span.Contains (s t : Span) : Prop :=
  s.start ≤ t.start ∧ t.stop ≤ s.stop

namespace Outline

/-- The span of a node. -/
def span : Outline → Span
  | node s _ => s

/-- One outline ends before another one starts. -/
def Before (o p : Outline) : Prop :=
  o.span.stop ≤ p.span.start

/-- Every node contains its parts, and these are disjoint and in order. -/
inductive Nested : Outline → Prop
  | node {s : Span} {parts : List Outline} (contains : ∀ part ∈ parts, s.Contains part.span)
      (ordered : parts.Pairwise Before) (nested : ∀ part ∈ parts, Nested part) : Nested (node s parts)

mutual

/-- The spans of an outline, those of the nodes before those of their parts. -/
def spans : Outline → List Span
  | node s parts => s :: spansAll parts

/-- The spans of some outlines. -/
def spansAll : List Outline → List Span
  | [] => []
  | part :: parts => spans part ++ spansAll parts

end

@[simp] theorem spans_node (s : Span) (parts : List Outline) : (node s parts).spans = s :: spansAll parts := rfl

@[simp] theorem spansAll_nil : spansAll [] = [] := rfl

@[simp] theorem spansAll_cons (part : Outline) (parts : List Outline) :
    spansAll (part :: parts) = part.spans ++ spansAll parts := rfl

theorem spansAll_eq_flatMap (parts : List Outline) : spansAll parts = parts.flatMap spans := by
  induction parts with
  | nil => rfl
  | cons part parts ih => rw [spansAll_cons, ih, List.flatMap_cons]

@[simp] theorem spansAll_append (parts more : List Outline) :
    spansAll (parts ++ more) = spansAll parts ++ spansAll more := by
  simp only [spansAll_eq_flatMap, List.flatMap_append]

@[simp] theorem spansAll_map {α : Type} (f : α → Outline) (as : List α) :
    spansAll (as.map f) = as.flatMap fun a => (f a).spans := by
  rw [spansAll_eq_flatMap, List.flatMap_map]

theorem span_mem_spans (o : Outline) : o.span ∈ o.spans := by
  cases o
  exact List.mem_cons_self

end Outline

/-! ## The outlines of trees -/

/-- The outline of a symbol name. -/
def Ident.outline (id : Ident) : Outline :=
  .node id.span []

/-- The outline of a string. -/
def StringNode.outline (s : StringNode) : Outline :=
  .node s.span []

/-- The outline of an expression. -/
def Expr.outline : Expr → Outline
  | .symbol id => id.outline
  | .string lit => lit.outline
  | .bool _ s | .tristate _ s | .int _ s | .hex _ s => .node s []
  | .not operand s => .node s [operand.outline]
  | .binary lhs _ rhs s => .node s [lhs.outline, rhs.outline]

/-- The outline of an optional condition. -/
def Expr.optionOutlines (condition : Option Expr) : List Outline :=
  condition.toList.map Expr.outline

/-- The outline of a property. -/
def Property.outline : Property → Outline
  | .type d => .node d.span (d.prompt.toList.map StringNode.outline ++ Expr.optionOutlines d.condition)
  | .prompt text condition s => .node s (text.outline :: Expr.optionOutlines condition)
  | .default v | .defBool v | .defTristate v => .node v.span (v.value.outline :: Expr.optionOutlines v.condition)
  | .dependsOn condition s | .visible condition s => .node s [condition.outline]
  | .select r | .imply r | .defaultMember r => .node r.span (r.symbol.outline :: Expr.optionOutlines r.condition)
  | .range low high condition s => .node s (low.outline :: high.outline :: Expr.optionOutlines condition)
  | .help _ s => .node s []
  | .option _ value s => .node s (value.toList.map StringNode.outline)

/-- The outline of an entry. -/
def Config.outline (c : Config) : Outline :=
  .node c.span (c.symbol.outline :: c.properties.map Property.outline)

/-- The outline of a choice. -/
def Choice.outline (c : Choice) : Outline :=
  .node c.span (c.properties.map Property.outline ++ c.members.map Config.outline)

/-- The outline of an inclusion. -/
def Source.outline (s : Source) : Outline :=
  .node s.span [s.path.outline]

/-- The outline of a comment. -/
def Comment.outline (c : Comment) : Outline :=
  .node c.span (c.text.outline :: c.properties.map Property.outline)

/-- The outline of a title. -/
def MainMenu.outline (m : MainMenu) : Outline :=
  .node m.span [m.title.outline]

mutual

/-- The outline of a statement. -/
def Stmt.outline : Stmt → Outline
  | .config c | .menuconfig c => c.outline
  | .choice c => c.outline
  | .menu m body =>
    .node m.span (m.title.outline :: (m.properties.map Property.outline ++ Stmt.outlineAll body))
  | .ifBlock condition body s => .node s (condition.outline :: Stmt.outlineAll body)
  | .source s => s.outline
  | .comment c => c.outline

/-- The outlines of the statements of a block. -/
def Stmt.outlineAll : List Stmt → List Outline
  | [] => []
  | s :: ss => Stmt.outline s :: Stmt.outlineAll ss

end

/-- The outlines of the title and the statements of a file. -/
def Root.outlines (r : Root) : List Outline :=
  r.mainMenu.toList.map MainMenu.outline ++ Stmt.outlineAll r.statements

@[simp] theorem Expr.span_outline (e : Expr) : e.outline.span = e.span := by
  cases e <;> rfl

@[simp] theorem Expr.outline_tristateLiteral (e : Expr) : e.tristateLiteral.outline = e.outline := by
  cases e <;> rfl

/-! ## Their spans -/

@[simp] theorem Ident.spans_outline (id : Ident) : id.outline.spans = [id.span] := rfl

@[simp] theorem StringNode.spans_outline (s : StringNode) : s.outline.spans = [s.span] := rfl

@[simp] theorem Expr.spans_outline (e : Expr) : e.outline.spans = e.spans := by
  induction e with
  | not operand s ih => simp [outline, spans, ih]
  | binary lhs op rhs s ih ih' => simp [outline, spans, ih, ih']
  | _ => rfl

@[simp] theorem Expr.spans_optionOutlines (condition : Option Expr) :
    Outline.spansAll (optionOutlines condition) = optionSpans condition := by
  simp [optionOutlines, optionSpans]

@[simp] theorem Property.spans_outline (p : Property) : p.outline.spans = p.spans := by
  have hstring (s : Option StringNode) : Outline.spansAll (s.toList.map StringNode.outline) =
      s.toList.map StringNode.span := by
    cases s <;> rfl
  cases p <;> simp [outline, spans, hstring]

@[simp] theorem Config.spans_outline (c : Config) : c.outline.spans = c.spans := by
  simp [outline, spans]

mutual

theorem Stmt.spans_outline : ∀ s : Stmt, s.outline.spans = s.spans
  | .config c | .menuconfig c => by simp [Stmt.outline, Stmt.spans]
  | .choice c => by simp [Stmt.outline, Choice.outline, Stmt.spans]
  | .menu m body => by simp [Stmt.outline, Stmt.spans, Menu.spans, Stmt.spans_outlineAll body]
  | .ifBlock condition body s => by simp [Stmt.outline, Stmt.spans, Stmt.spans_outlineAll body]
  | .source s => rfl
  | .comment c => by simp [Stmt.outline, Comment.outline, Stmt.spans]

theorem Stmt.spans_outlineAll : ∀ block : List Stmt,
    Outline.spansAll (Stmt.outlineAll block) = Stmt.spansAll block
  | [] => rfl
  | s :: ss => by
    rw [Stmt.outlineAll, Stmt.spansAll, Outline.spansAll_cons, Stmt.spans_outline s, Stmt.spans_outlineAll ss]

end

/-- The spans of the outlines of a tree are the spans of the tree. -/
theorem Root.spans_outlines (r : Root) : Outline.spansAll r.outlines = r.spans := by
  have htitle (m : Option MainMenu) :
      Outline.spansAll (m.toList.map MainMenu.outline) = m.toList.flatMap MainMenu.spans := by
    cases m <;> rfl
  rw [outlines, spans, Outline.spansAll_append, htitle, Stmt.spans_outlineAll]

end KconfigLang
