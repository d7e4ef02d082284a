import KconfigLang.Tree.Expr
import KconfigLang.Path

/-!
# Statements

The trees of files: properties, entries, choices, menus, conditional blocks and inclusions. A tree is never
changed; resolving inclusions builds a new one.

- `Property.span` and `Stmt.span`: the span of a node.
- `Config.symbolType?`, `Config.promptText?` and `Config.help?`: what an entry declares.
- `Menu.visible?`: the condition under which a menu is shown.
- `Stmt.walk`: all statements, parents before children; `configs`: all entries in order.
-/

namespace KconfigLang

/-- The type of a symbol. -/
inductive SymbolType where
  | bool
  | tristate
  | int
  | hex
  | string
  deriving DecidableEq, Repr, Inhabited

/-- How a type is written. -/
def SymbolType.text : SymbolType → String
  | bool => "bool"
  | tristate => "tristate"
  | int => "int"
  | hex => "hex"
  | string => "string"

/-- The name in an `option` property. -/
inductive OptionName where
  | defconfigList
  | modules
  | env
  | allnoconfigY
  | other (name : String)
  deriving DecidableEq, Repr, Inhabited

/-- How an option name is written. -/
def OptionName.text : OptionName → String
  | defconfigList => "defconfig_list"
  | modules => "modules"
  | env => "env"
  | allnoconfigY => "allnoconfig_y"
  | other name => name

/-- A type with an optional prompt, which may have a condition. -/
structure TypeDecl where
  kind : SymbolType
  prompt : Option StringNode
  condition : Option Expr
  span : Span
  deriving DecidableEq, Repr, Inhabited

/-- A value with an optional condition. -/
structure DefaultValue where
  value : Expr
  condition : Option Expr
  span : Span
  deriving DecidableEq, Repr, Inhabited

/-- Another symbol with an optional condition. -/
structure Reference where
  symbol : Ident
  condition : Option Expr
  span : Span
  deriving DecidableEq, Repr, Inhabited

/-- The lines that describe an entry, a choice, a menu or a comment. -/
inductive Property where
  | type (decl : TypeDecl)
  | prompt (text : StringNode) (condition : Option Expr) (span : Span)
  | default (value : DefaultValue)
  | defBool (value : DefaultValue)
  | defTristate (value : DefaultValue)
  | dependsOn (condition : Expr) (span : Span)
  | select (target : Reference)
  | imply (target : Reference)
  | range (low high : Expr) (condition : Option Expr) (span : Span)
  | visible (condition : Expr) (span : Span)
  | help (body : String) (span : Span)
  | option (name : OptionName) (value : Option StringNode) (span : Span)
  /-- The member that a choice selects by default. -/
  | defaultMember (target : Reference)
  deriving DecidableEq, Repr, Inhabited

/-- The span of a property. -/
def Property.span : Property → Span
  | type d => d.span
  | default v | defBool v | defTristate v => v.span
  | select r | imply r | defaultMember r => r.span
  | prompt _ _ s | dependsOn _ s | range _ _ _ s | visible _ s | help _ s | option _ _ s => s

/-- The declaration of a symbol. -/
structure Config where
  symbol : Ident
  properties : List Property
  span : Span
  deriving DecidableEq, Repr, Inhabited

namespace Config

/-- The first declared type. -/
def symbolType? (c : Config) : Option SymbolType :=
  c.properties.findSome? fun
    | .type d => some d.kind
    | .defBool _ => some .bool
    | .defTristate _ => some .tristate
    | _ => none

/-- The first prompt, whether it stands beside a type or alone. -/
def promptText? (c : Config) : Option StringNode :=
  c.properties.findSome? fun
    | .type d => d.prompt
    | .prompt text _ _ => some text
    | _ => none

/-- The first help body. -/
def help? (c : Config) : Option String :=
  c.properties.findSome? fun
    | .help body _ => some body
    | _ => none

end Config

/-- A group of entries of which one is selected. -/
structure Choice where
  properties : List Property
  members : List Config
  span : Span
  deriving DecidableEq, Repr, Inhabited

/-- The head of a menu; its body is a list of statements. -/
structure Menu where
  title : StringNode
  properties : List Property
  span : Span
  deriving DecidableEq, Repr, Inhabited

/-- The conjunction of some conditions, grouped to the left. -/
def Expr.conjunction? : List Expr → Option Expr
  | [] => none
  | e :: es => some (es.foldl (·.join .and ·) e)

/-- The conjunction of all `visible if` conditions of a menu. -/
def Menu.visible? (m : Menu) : Option Expr :=
  Expr.conjunction? <| m.properties.filterMap fun
    | .visible condition _ => some condition
    | _ => none

/-- How an inclusion finds its file. -/
inductive SourceKind where
  /-- From the base directory. -/
  | plain
  /-- From the directory of the including file. -/
  | relative
  /-- From the base directory, skipped if the file is missing. -/
  | optional
  /-- From the directory of the including file, skipped if the file is missing. -/
  | optionalRelative
  deriving DecidableEq, Repr, Inhabited

namespace SourceKind

/-- Whether paths start at the including file. -/
def isRelative : SourceKind → Bool
  | relative | optionalRelative => true
  | plain | optional => false

/-- Whether a missing file is skipped. -/
def isOptional : SourceKind → Bool
  | optional | optionalRelative => true
  | plain | relative => false

/-- The keyword of a kind. -/
def text : SourceKind → String
  | plain => "source"
  | relative => "rsource"
  | optional => "osource"
  | optionalRelative => "orsource"

end SourceKind

/-- The inclusion of another file. -/
structure Source where
  kind : SourceKind
  path : StringNode
  span : Span
  deriving DecidableEq, Repr, Inhabited

/-- A comment that menus display. -/
structure Comment where
  text : StringNode
  properties : List Property
  span : Span
  deriving DecidableEq, Repr, Inhabited

/-- A statement. -/
inductive Stmt where
  | config (entry : Config)
  | menuconfig (entry : Config)
  | choice (group : Choice)
  | menu (head : Menu) (body : List Stmt)
  | ifBlock (condition : Expr) (body : List Stmt) (span : Span)
  | source (inclusion : Source)
  | comment (shown : Comment)
  deriving BEq, Repr, Inhabited

/-- The title of a whole configuration. -/
structure MainMenu where
  title : StringNode
  span : Span
  deriving DecidableEq, Repr, Inhabited

/-- The tree of one file. -/
structure Root where
  file : FileId
  /-- The file that the tree was read from, if there is one. -/
  path : Option Path
  mainMenu : Option MainMenu
  statements : List Stmt
  deriving BEq, Repr, Inhabited

namespace Stmt

/-- The span of a statement. -/
def span : Stmt → Span
  | config c | menuconfig c => c.span
  | choice c => c.span
  | menu m _ => m.span
  | ifBlock _ _ s => s
  | source s => s.span
  | comment c => c.span

/-- The statements inside a menu or a conditional block. -/
def children : Stmt → List Stmt
  | menu _ body | ifBlock _ body _ => body
  | _ => []

/-- The properties that belong to a statement itself. -/
def properties : Stmt → List Property
  | config c | menuconfig c => c.properties
  | choice c => c.properties
  | menu m _ => m.properties
  | comment c => c.properties
  | ifBlock .. | source _ => []

mutual

/-- A statement followed by all statements inside it. -/
def walk : Stmt → List Stmt
  | menu m body => menu m body :: walkAll body
  | ifBlock condition body s => ifBlock condition body s :: walkAll body
  | config c => [config c]
  | menuconfig c => [menuconfig c]
  | choice c => [choice c]
  | source s => [source s]
  | comment c => [comment c]

/-- All statements of a block in order, parents before children. -/
def walkAll : List Stmt → List Stmt
  | [] => []
  | s :: ss => walk s ++ walkAll ss

end

/-- The entries that a statement itself declares. -/
def ownConfigs : Stmt → List Config
  | config c | menuconfig c => [c]
  | choice c => c.members
  | _ => []

end Stmt

/-- All entries of a block in order, members of choices included. -/
def configs (block : List Stmt) : List Config :=
  (Stmt.walkAll block).flatMap Stmt.ownConfigs

/-- All menus of a block in order. -/
def menus (block : List Stmt) : List Menu :=
  (Stmt.walkAll block).filterMap fun
    | .menu m _ => some m
    | _ => none

end KconfigLang
