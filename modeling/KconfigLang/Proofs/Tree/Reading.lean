import KconfigLang.Proofs.Tree.Content
import KconfigLang.Token.Lexeme

/-!
# Trees from S-expressions

The way back from an S-expression to what the tree says. An S-expression does not tell a bare `y` from a
tristate literal, nor the default of a choice from that of an entry; the reader takes what the place asks for.
The items of an entry, a choice or a menu are told apart by their heads.

- `Expr.ofSExpr?`, `Property.ofSExpr?`, `Config.ofSExpr?` and `Stmt.ofSExpr?`: the node that an S-expression
  stands for, if it stands for one.
- `Root.ofSExpr?`: the file that it stands for.
- `Property.ofSExpr?_stmt`, `Stmt.ofSExpr?_property`: no S-expression is read as two kinds of nodes.
-/

namespace KconfigLang

/-! ## Expressions -/

/-- The token that some text is as a whole. -/
def Token.ofText? (text : String) : Option Token :=
  match text.toList with
  | [] => none
  | c :: cs =>
    match Lexeme.read c cs with
    | ⟨.token t, extra⟩ => if extra = cs.length then some t else none
    | _ => none

/-- The expression that a token is on its own. -/
def Expr.ofToken? : Token → Option Expr
  | .tristate .yes => some (.bool true .blank)
  | .tristate .no => some (.bool false .blank)
  | .tristate .module => some (.tristate .module .blank)
  | .number value => some (.int value .blank)
  | .hexNumber value => some (.hex value .blank)
  | .ident name => some (.symbol ⟨name, .blank⟩)
  | .keyword _ | .mark _ | .help _ | .string .. => none

/-- The operator with a given head. -/
def BinaryOp.ofHead? (head : String) : Option BinaryOp :=
  [equal, notEqual, less, lessEqual, greater, greaterEqual, and, or].find? (·.head == head)

/-- The expression of an S-expression. -/
def Expr.ofSExpr? : SExpr → Option Expr
  | .word text => (Token.ofText? text).bind Expr.ofToken?
  | .quoted value => some (.string (.ofValue value))
  | .list "not" [operand] => (ofSExpr? operand).map (.not · .blank)
  | .list head [lhs, rhs] => do
    some (.binary (← ofSExpr? lhs) (← BinaryOp.ofHead? head) (← ofSExpr? rhs) .blank)
  | .list .. => none

/-! ## Properties -/

/-- The condition that some items are. -/
def Expr.conditionOf? : List SExpr → Option Expr
  | [.word "if", e] => ofSExpr? e
  | _ => none

/-- The type with a given spelling. -/
def SymbolType.ofText? (text : String) : Option SymbolType :=
  [bool, tristate, int, hex, string].find? (·.text == text)

/-- The option name with a given spelling. -/
def OptionName.ofText (text : String) : OptionName :=
  match Keyword.ofText? text with
  | some .defconfigList => defconfigList
  | some .modules => modules
  | some .env => env
  | some .allnoconfigY => allnoconfigY
  | _ => other text

/-- The value that a property gives, as `stored` says, with its condition. -/
def DefaultValue.ofItems? (stored : Expr → Expr) (value : SExpr) (items : List SExpr) : Option DefaultValue :=
  (Expr.ofSExpr? value).map fun e => ⟨stored e, Expr.conditionOf? items, .blank⟩

/-- The symbol that a property refers to with its condition. -/
def Reference.ofItems? (target : SExpr) (items : List SExpr) : Option Reference :=
  match target with
  | .word name => some ⟨⟨name, .blank⟩, Expr.conditionOf? items, .blank⟩
  | _ => none

/-- The property of an S-expression, in a choice or elsewhere. -/
def Property.ofSExpr? (ofChoice : Bool) : SExpr → Option Property
  | .list "type" (.word kind :: .quoted text :: items) => (SymbolType.ofText? kind).map fun kind =>
    .type ⟨kind, some (.ofValue text), Expr.conditionOf? items, .blank⟩
  | .list "type" (.word kind :: items) => (SymbolType.ofText? kind).map fun kind =>
    .type ⟨kind, none, Expr.conditionOf? items, .blank⟩
  | .list "prompt" (.quoted text :: items) =>
    some (.prompt (.ofValue text) (Expr.conditionOf? items) .blank)
  | .list "default" (value :: items) =>
    if ofChoice then (Reference.ofItems? value items).map .defaultMember
    else (DefaultValue.ofItems? Expr.tristateLiteral value items).map .default
  | .list "def_bool" (value :: items) => (DefaultValue.ofItems? id value items).map .defBool
  | .list "def_tristate" (value :: items) =>
    (DefaultValue.ofItems? Expr.tristateLiteral value items).map .defTristate
  | .list "depends" [condition] => (Expr.ofSExpr? condition).map (.dependsOn · .blank)
  | .list "select" (target :: items) => (Reference.ofItems? target items).map .select
  | .list "imply" (target :: items) => (Reference.ofItems? target items).map .imply
  | .list "range" (low :: high :: items) => do
    some (.range (← Expr.ofSExpr? low) (← Expr.ofSExpr? high) (Expr.conditionOf? items) .blank)
  | .list "visible" [condition] => (Expr.ofSExpr? condition).map (.visible · .blank)
  | .list "help" [.quoted body] => some (.help body .blank)
  | .list "option" [.word name] => some (.option (.ofText name) none .blank)
  | .list "option" [.word name, .quoted value] =>
    some (.option (.ofText name) (some (.ofValue value)) .blank)
  | _ => none

/-! ## Statements -/

/-- The properties among some items. -/
def Property.allOfSExprs (ofChoice : Bool) (items : List SExpr) : List Property :=
  items.filterMap (Property.ofSExpr? ofChoice)

/-- The entry that some items are. -/
def Config.ofItems? : List SExpr → Option Config
  | .word name :: items => some ⟨⟨name, .blank⟩, Property.allOfSExprs false items, .blank⟩
  | _ => none

/-- The member of a choice of an S-expression. -/
def Config.ofSExpr? : SExpr → Option Config
  | .list "config" items => ofItems? items
  | _ => none

/-- The inclusion of a path. -/
def Source.ofPath (kind : SourceKind) (path : String) : Source :=
  ⟨kind, .ofValue path, .blank⟩

namespace Stmt

mutual

/-- The statement of an S-expression. -/
def ofSExpr? : SExpr → Option Stmt
  | .list "config" items => (Config.ofItems? items).map .config
  | .list "menuconfig" items => (Config.ofItems? items).map .menuconfig
  | .list "choice" items =>
    some (.choice ⟨Property.allOfSExprs true items, items.filterMap Config.ofSExpr?, .blank⟩)
  | .list "menu" (.quoted title :: items) =>
    some (.menu ⟨.ofValue title, Property.allOfSExprs false items, .blank⟩ (allOfSExprs items))
  | .list "if" (condition :: items) =>
    (Expr.ofSExpr? condition).map (.ifBlock · (allOfSExprs items) .blank)
  | .list "comment" (.quoted text :: items) =>
    some (.comment ⟨.ofValue text, Property.allOfSExprs false items, .blank⟩)
  | .list "source" [.quoted path] => some (.source (.ofPath .plain path))
  | .list "rsource" [.quoted path] => some (.source (.ofPath .relative path))
  | .list "osource" [.quoted path] => some (.source (.ofPath .optional path))
  | .list "orsource" [.quoted path] => some (.source (.ofPath .optionalRelative path))
  | _ => none

/-- The statements among some items. -/
def allOfSExprs : List SExpr → List Stmt
  | [] => []
  | e :: es => (ofSExpr? e).toList ++ allOfSExprs es

end

end Stmt

/-- The title of an S-expression. -/
def MainMenu.ofSExpr? : SExpr → Option MainMenu
  | .list "mainmenu" [.quoted title] => some ⟨.ofValue title, .blank⟩
  | _ => none

/-- The file of an S-expression. -/
def Root.ofSExpr? : SExpr → Option Root
  | .list "root" items => some ⟨.root, none, items.head?.bind MainMenu.ofSExpr?, Stmt.allOfSExprs items⟩
  | _ => none

/-! ## Heads tell nodes apart -/

theorem Stmt.ofSExpr?_property (p : Property) : Stmt.ofSExpr? p.toSExpr = none := by
  cases p <;> rfl

theorem Property.ofSExpr?_stmt (ofChoice : Bool) (s : Stmt) : Property.ofSExpr? ofChoice s.toSExpr = none := by
  cases s with
  | source s =>
    obtain ⟨kind, path, pos⟩ := s
    cases kind <;> rfl
  | _ => rfl

theorem Config.ofSExpr?_property (p : Property) : Config.ofSExpr? p.toSExpr = none := by
  cases p <;> rfl

theorem MainMenu.ofSExpr?_stmt (s : Stmt) : MainMenu.ofSExpr? s.toSExpr = none := by
  cases s with
  | source s =>
    obtain ⟨kind, path, pos⟩ := s
    cases kind <;> rfl
  | _ => rfl

end KconfigLang
