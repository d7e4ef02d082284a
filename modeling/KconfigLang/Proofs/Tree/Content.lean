import KconfigLang.Proofs.Tree.Erasure
import KconfigLang.Tree.SExpr

/-!
# What a tree says

A tree without its spans, the number and the path of its file, and the spelling of its strings, whose values
stay. This is what the S-expression of a tree depends on.

- `Expr.content`, `Property.content`, `Stmt.content` and `Root.content`: what a node says.
- `Root.toSExpr_content`: trees that say the same have the same S-expression.
-/

namespace KconfigLang

/-! ## Contents -/

/-- The string that stands for all strings with a value. -/
def StringNode.ofValue (value : String) : StringNode :=
  ⟨value, "", .blank⟩

/-- A string without its spelling. -/
def StringNode.content (s : StringNode) : StringNode :=
  .ofValue s.value

/-- What an expression says. -/
def Expr.content : Expr → Expr
  | .symbol id => .symbol id.erase
  | .bool value _ => .bool value .blank
  | .tristate value _ => .tristate value .blank
  | .int value _ => .int value .blank
  | .hex value _ => .hex value .blank
  | .string lit => .string lit.content
  | .not operand _ => .not operand.content .blank
  | .binary lhs op rhs _ => .binary lhs.content op rhs.content .blank

/-- What a type says. -/
def TypeDecl.content (d : TypeDecl) : TypeDecl :=
  ⟨d.kind, d.prompt.map StringNode.content, d.condition.map Expr.content, .blank⟩

/-- What a value with its condition says. -/
def DefaultValue.content (v : DefaultValue) : DefaultValue :=
  ⟨v.value.content, v.condition.map Expr.content, .blank⟩

/-- What a reference says. -/
def Reference.content (r : Reference) : Reference :=
  ⟨r.symbol.erase, r.condition.map Expr.content, .blank⟩

/-- What a property says. -/
def Property.content : Property → Property
  | .type d => .type d.content
  | .prompt text condition _ => .prompt text.content (condition.map Expr.content) Span.blank
  | .default v => .default v.content
  | .defBool v => .defBool v.content
  | .defTristate v => .defTristate v.content
  | .dependsOn condition _ => .dependsOn condition.content Span.blank
  | .select r => .select r.content
  | .imply r => .imply r.content
  | .range low high condition _ =>
    .range low.content high.content (condition.map Expr.content) Span.blank
  | .visible condition _ => .visible condition.content Span.blank
  | .help body _ => .help body Span.blank
  | .option name value _ => .option name (value.map StringNode.content) Span.blank
  | .defaultMember r => .defaultMember r.content

/-- What an entry says. -/
def Config.content (c : Config) : Config :=
  ⟨c.symbol.erase, c.properties.map Property.content, .blank⟩

/-- What a choice says. -/
def Choice.content (c : Choice) : Choice :=
  ⟨c.properties.map Property.content, c.members.map Config.content, .blank⟩

/-- What the head of a menu says. -/
def Menu.content (m : Menu) : Menu :=
  ⟨m.title.content, m.properties.map Property.content, .blank⟩

/-- What an inclusion says. -/
def Source.content (s : Source) : Source :=
  ⟨s.kind, s.path.content, .blank⟩

/-- What a comment says. -/
def Comment.content (c : Comment) : Comment :=
  ⟨c.text.content, c.properties.map Property.content, .blank⟩

/-- What a title says. -/
def MainMenu.content (m : MainMenu) : MainMenu :=
  ⟨m.title.content, .blank⟩

namespace Stmt

mutual

/-- What a statement says. -/
def content : Stmt → Stmt
  | config c => config c.content
  | menuconfig c => menuconfig c.content
  | choice c => choice c.content
  | menu m body => menu m.content (contentAll body)
  | ifBlock condition body _ => ifBlock condition.content (contentAll body) .blank
  | source s => source s.content
  | comment c => comment c.content

/-- What the statements of a block say. -/
def contentAll : List Stmt → List Stmt
  | [] => []
  | s :: ss => content s :: contentAll ss

end

end Stmt

/-- What the tree of a file says. -/
def Root.content (r : Root) : Root :=
  ⟨.root, none, r.mainMenu.map MainMenu.content, Stmt.contentAll r.statements⟩

/-! ## Contents and S-expressions -/

@[simp] theorem StringNode.toSExpr_content (s : StringNode) : s.content.toSExpr = s.toSExpr :=
  rfl

@[simp] theorem Expr.toSExpr_content (e : Expr) : e.content.toSExpr = e.toSExpr := by
  induction e with
  | not operand _ ih => rw [content, toSExpr, toSExpr, ih]
  | binary lhs op rhs _ ihl ihr => rw [content, toSExpr, toSExpr, ihl, ihr]
  | _ => rfl

@[simp] theorem conditionItems_content (condition : Option Expr) :
    conditionItems (condition.map Expr.content) = conditionItems condition := by
  cases condition with
  | none => rfl
  | some e => simp [conditionItems]

@[simp] theorem DefaultValue.toSExpr_content (head : String) (v : DefaultValue) :
    v.content.toSExpr head = v.toSExpr head := by
  simp [DefaultValue.toSExpr, DefaultValue.content]

@[simp] theorem Reference.toSExpr_content (head : String) (r : Reference) :
    r.content.toSExpr head = r.toSExpr head := by
  simp [Reference.toSExpr, Reference.content, Ident.erase]

@[simp] theorem StringNode.toSExprs_content (s : Option StringNode) :
    (s.map StringNode.content).toList.map StringNode.toSExpr = s.toList.map StringNode.toSExpr := by
  cases s with
  | none => rfl
  | some s => rfl

@[simp] theorem Property.toSExpr_content (p : Property) : p.content.toSExpr = p.toSExpr := by
  cases p with
  | type d => simp [content, toSExpr, TypeDecl.content]
  | _ => simp [content, toSExpr]

theorem Property.toSExprs_content (ps : List Property) :
    (ps.map Property.content).map Property.toSExpr = ps.map Property.toSExpr := by
  simp

@[simp] theorem Config.toSExpr_content (head : String) (c : Config) :
    c.content.toSExpr head = c.toSExpr head := by
  simp [Config.toSExpr, Config.content, Ident.erase]

theorem Config.toSExprs_content (head : String) (cs : List Config) :
    (cs.map Config.content).map (Config.toSExpr head) = cs.map (Config.toSExpr head) := by
  simp

namespace Stmt

mutual

theorem toSExpr_content : ∀ s : Stmt, s.content.toSExpr = s.toSExpr
  | config c => by simp [content, toSExpr]
  | menuconfig c => by simp [content, toSExpr]
  | choice c => by
    rw [content, toSExpr, toSExpr, Choice.content, Property.toSExprs_content, Config.toSExprs_content]
  | menu m body => by
    rw [content, toSExpr, toSExpr, Menu.content, Property.toSExprs_content, toSExprs_contentAll body,
      StringNode.toSExpr_content]
  | ifBlock condition body _ => by simp [content, toSExpr, toSExprs_contentAll body]
  | source s => by simp [content, toSExpr, Source.content]
  | comment c => by
    rw [content, toSExpr, toSExpr, Comment.content, Property.toSExprs_content,
      StringNode.toSExpr_content]

theorem toSExprs_contentAll : ∀ ss : List Stmt, toSExprs (contentAll ss) = toSExprs ss
  | [] => rfl
  | s :: ss => by rw [contentAll, toSExprs, toSExprs, toSExpr_content s, toSExprs_contentAll ss]

end

end Stmt

/-- Trees that say the same have the same S-expression. -/
theorem Root.toSExpr_content (r : Root) : r.content.toSExpr = r.toSExpr := by
  rw [toSExpr, toSExpr, content, Stmt.toSExprs_contentAll]
  cases r.mainMenu with
  | none => rfl
  | some m => rfl

end KconfigLang
