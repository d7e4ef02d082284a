import KconfigLang.Text.Quoted
import KconfigLang.Token
import KconfigLang.Tree.Stmt

/-!
# S-expressions

A tree in parentheses on one line, without spans and with strings by their value.

- `SExpr.render`: the text of an S-expression.
- `Expr.toSExpr`, `Property.toSExpr`, `Stmt.toSExpr` and `Root.toSExpr`: the S-expression of a node.
- `Root.sexpr`, `Expr.sexpr` and `blockText`: their texts.
-/

namespace KconfigLang

/-- A word, a quoted text, or a list that starts with a word. -/
inductive SExpr where
  | word (text : String)
  | quoted (value : String)
  | list (head : String) (items : List SExpr)
  deriving BEq, Repr, Inhabited

namespace SExpr

mutual

/-- The text of an S-expression. -/
def render : SExpr → String
  | word text => text
  | quoted value => Text.quoted value
  | list head items => "(" ++ head ++ renderItems items ++ ")"

/-- The texts of some S-expressions, each with a space before it. -/
def renderItems : List SExpr → String
  | [] => ""
  | e :: es => " " ++ render e ++ renderItems es

end

end SExpr

/-- The quoted value of a string literal. -/
def StringNode.toSExpr (s : StringNode) : SExpr :=
  .quoted s.value

/-- The word that heads a binary expression. -/
def BinaryOp.head : BinaryOp → String
  | and => "and"
  | or => "or"
  | op => op.text

/-- The S-expression of an expression. -/
def Expr.toSExpr : Expr → SExpr
  | symbol id => .word id.name
  | bool value _ => .word (Tristate.ofBool value).text
  | tristate value _ => .word value.text
  | int value _ => .word (toString value)
  | hex value _ => .word (Text.hexText value)
  | string lit => lit.toSExpr
  | not operand _ => .list "not" [operand.toSExpr]
  | binary lhs op rhs _ => .list op.head [lhs.toSExpr, rhs.toSExpr]

/-- The words `if` and a condition, or nothing. -/
def conditionItems : Option Expr → List SExpr
  | none => []
  | some e => [.word "if", e.toSExpr]

/-- A value with its condition. -/
def DefaultValue.toSExpr (head : String) (v : DefaultValue) : SExpr :=
  .list head (v.value.toSExpr :: conditionItems v.condition)

/-- A symbol with its condition. -/
def Reference.toSExpr (head : String) (r : Reference) : SExpr :=
  .list head (.word r.symbol.name :: conditionItems r.condition)

/-- The S-expression of a property. -/
def Property.toSExpr : Property → SExpr
  | type d =>
    .list "type" (.word d.kind.text :: d.prompt.toList.map StringNode.toSExpr ++ conditionItems d.condition)
  | prompt text condition _ => .list "prompt" (text.toSExpr :: conditionItems condition)
  | default v => v.toSExpr "default"
  | defBool v => v.toSExpr "def_bool"
  | defTristate v => v.toSExpr "def_tristate"
  | dependsOn condition _ => .list "depends" [condition.toSExpr]
  | select r => r.toSExpr "select"
  | imply r => r.toSExpr "imply"
  | range low high condition _ =>
    .list "range" (low.toSExpr :: high.toSExpr :: conditionItems condition)
  | visible condition _ => .list "visible" [condition.toSExpr]
  | help body _ => .list "help" [.quoted body]
  | option name value _ => .list "option" (.word name.text :: value.toList.map StringNode.toSExpr)
  | defaultMember r => r.toSExpr "default"

/-- The S-expression of an entry under the given head. -/
def Config.toSExpr (head : String) (c : Config) : SExpr :=
  .list head (.word c.symbol.name :: c.properties.map Property.toSExpr)

namespace Stmt

mutual

/-- The S-expression of a statement. -/
def toSExpr : Stmt → SExpr
  | config c => c.toSExpr "config"
  | menuconfig c => c.toSExpr "menuconfig"
  | choice c =>
    .list "choice" (c.properties.map Property.toSExpr ++ c.members.map (Config.toSExpr "config"))
  | menu m body =>
    .list "menu" (m.title.toSExpr :: m.properties.map Property.toSExpr ++ toSExprs body)
  | ifBlock condition body _ => .list "if" (condition.toSExpr :: toSExprs body)
  | source s => .list s.kind.text [s.path.toSExpr]
  | comment c => .list "comment" (c.text.toSExpr :: c.properties.map Property.toSExpr)

/-- The S-expressions of the statements of a block. -/
def toSExprs : List Stmt → List SExpr
  | [] => []
  | s :: ss => toSExpr s :: toSExprs ss

end

end Stmt

/-- The S-expression of a file. -/
def Root.toSExpr (r : Root) : SExpr :=
  .list "root"
    (r.mainMenu.toList.map (fun m => .list "mainmenu" [m.title.toSExpr]) ++ Stmt.toSExprs r.statements)

/-- The text of an expression's S-expression. -/
def Expr.sexpr (e : Expr) : String :=
  e.toSExpr.render

/-- The text of a file's S-expression. -/
def Root.sexpr (r : Root) : String :=
  r.toSExpr.render

/-- The S-expressions of a block, one statement a line. -/
def blockText (block : List Stmt) : String :=
  "\n".intercalate ((Stmt.toSExprs block).map SExpr.render)

end KconfigLang
