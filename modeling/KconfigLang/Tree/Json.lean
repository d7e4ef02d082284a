import KconfigLang.Text.Json
import KconfigLang.Tree.Stmt

/-!
# Trees as JSON

A tree with all its spans as a JSON value. A node is an object with its parts in a fixed order; where a place
can hold several kinds of nodes, the node is the only member of an object whose key names the kind, and a kind
without parts is that name alone.
-/

namespace KconfigLang

/-- The number of a file. -/
def FileId.toJson (f : FileId) : Json :=
  .int f.index.toNat

/-- A span with its byte range and its position. -/
def Span.toJson (s : Span) : Json :=
  .object [("file", s.file.toJson), ("start", .int s.start), ("end", .int s.stop), ("line", .int s.line),
    ("column", .int s.column)]

/-- The name of a tristate value. -/
def Tristate.name : Tristate → String
  | no => "No"
  | module => "Module"
  | yes => "Yes"

/-- The name of an operator. -/
def BinaryOp.name : BinaryOp → String
  | equal => "Equal"
  | notEqual => "NotEqual"
  | less => "Less"
  | lessEqual => "LessEqual"
  | greater => "Greater"
  | greaterEqual => "GreaterEqual"
  | and => "And"
  | or => "Or"

/-- The name of a symbol type. -/
def SymbolType.name : SymbolType → String
  | bool => "Bool"
  | tristate => "Tristate"
  | int => "Int"
  | hex => "Hex"
  | string => "String"

/-- The name of a way to find files. -/
def SourceKind.name : SourceKind → String
  | plain => "Absolute"
  | relative => "Relative"
  | optional => "Optional"
  | optionalRelative => "OptionalRelative"

/-- A known option by its name, another one by how it is written. -/
def OptionName.toJson : OptionName → Json
  | defconfigList => .string "DefconfigList"
  | modules => .string "Modules"
  | env => .string "Env"
  | allnoconfigY => .string "AllnoconfigY"
  | other name => .single "Other" (.string name)

/-- A symbol name with its span. -/
def Ident.toJson (id : Ident) : Json :=
  .object [("name", .string id.name), ("span", id.span.toJson)]

/-- A string literal with its span. -/
def StringNode.toJson (s : StringNode) : Json :=
  .object [("value", .string s.value), ("raw", .string s.raw), ("span", s.span.toJson)]

/-- An expression. -/
def Expr.toJson : Expr → Json
  | symbol id => .single "Symbol" id.toJson
  | bool value s => .single "Bool" (.object [("value", .bool value), ("span", s.toJson)])
  | tristate value s =>
    .single "Tristate" (.object [("value", .string value.name), ("span", s.toJson)])
  | int value s => .single "Int" (.object [("value", .int value), ("span", s.toJson)])
  | hex value s => .single "Hex" (.object [("value", .int value), ("span", s.toJson)])
  | string lit => .single "String" lit.toJson
  | not operand s => .single "Not" (.object [("operand", operand.toJson), ("span", s.toJson)])
  | binary lhs op rhs s =>
    .single "Binary"
      (.object [("lhs", lhs.toJson), ("op", .string op.name), ("rhs", rhs.toJson), ("span", s.toJson)])

/-- A condition, or null. -/
def conditionJson (condition : Option Expr) : Json :=
  .ofOption Expr.toJson condition

/-- A value with its condition. -/
def DefaultValue.toJson (v : DefaultValue) : Json :=
  .object
    [("value", v.value.toJson), ("condition", conditionJson v.condition), ("span", v.span.toJson)]

/-- A symbol with its condition. -/
def Reference.toJson (r : Reference) : Json :=
  .object
    [("symbol", r.symbol.toJson), ("condition", conditionJson r.condition), ("span", r.span.toJson)]

/-- A type declaration. -/
def TypeDecl.toJson (d : TypeDecl) : Json :=
  .object
    [("kind", .string d.kind.name), ("prompt", .ofOption StringNode.toJson d.prompt),
      ("condition", conditionJson d.condition), ("span", d.span.toJson)]

/-- A property. -/
def Property.toJson : Property → Json
  | type d => .single "Type" d.toJson
  | prompt text condition s =>
    .single "Prompt"
      (.object [("text", text.toJson), ("condition", conditionJson condition), ("span", s.toJson)])
  | default v => .single "Default" v.toJson
  | defBool v => .single "DefBool" v.toJson
  | defTristate v => .single "DefTristate" v.toJson
  | dependsOn condition s =>
    .single "Depends" (.object [("condition", condition.toJson), ("span", s.toJson)])
  | select r => .single "Select" r.toJson
  | imply r => .single "Imply" r.toJson
  | range low high condition s =>
    .single "Range"
      (.object
        [("low", low.toJson), ("high", high.toJson), ("condition", conditionJson condition),
          ("span", s.toJson)])
  | visible condition s =>
    .single "Visible" (.object [("condition", condition.toJson), ("span", s.toJson)])
  | help body s => .single "Help" (.object [("text", .string body), ("span", s.toJson)])
  | option name value s =>
    .single "Option"
      (.object
        [("name", name.toJson), ("value", .ofOption StringNode.toJson value), ("span", s.toJson)])
  | defaultMember r => .single "DefaultChoice" r.toJson

/-- Some properties in order. -/
def propertiesJson (properties : List Property) : Json :=
  .array (properties.map Property.toJson)

/-- The declaration of a symbol. -/
def Config.toJson (c : Config) : Json :=
  .object
    [("symbol", c.symbol.toJson), ("options", propertiesJson c.properties), ("span", c.span.toJson)]

/-- A choice. -/
def Choice.toJson (c : Choice) : Json :=
  .object
    [("options", propertiesJson c.properties), ("configs", .array (c.members.map Config.toJson)),
      ("span", c.span.toJson)]

/-- An inclusion. -/
def Source.toJson (s : Source) : Json :=
  .object [("kind", .string s.kind.name), ("path", s.path.toJson), ("span", s.span.toJson)]

/-- A displayed comment. -/
def Comment.toJson (c : Comment) : Json :=
  .object
    [("text", c.text.toJson), ("options", propertiesJson c.properties), ("span", c.span.toJson)]

/-- The title of a configuration. -/
def MainMenu.toJson (m : MainMenu) : Json :=
  .object [("title", m.title.toJson), ("span", m.span.toJson)]

namespace Stmt

mutual

/-- A statement. -/
def toJson : Stmt → Json
  | config c => .single "Config" c.toJson
  | menuconfig c => .single "MenuConfig" c.toJson
  | choice c => .single "Choice" c.toJson
  | menu m body =>
    .single "Menu"
      (.object
        [("title", m.title.toJson), ("options", propertiesJson m.properties),
          ("body", .array (toJsons body)), ("span", m.span.toJson)])
  | ifBlock condition body s =>
    .single "If"
      (.object
        [("condition", condition.toJson), ("body", .array (toJsons body)), ("span", s.toJson)])
  | source s => .single "Source" s.toJson
  | comment c => .single "Comment" c.toJson

/-- The statements of a block. -/
def toJsons : List Stmt → List Json
  | [] => []
  | s :: ss => toJson s :: toJsons ss

end

end Stmt

/-- The tree of a file. -/
def Root.toJson (r : Root) : Json :=
  .object
    [("file", r.file.toJson), ("path", .ofOption (fun p => .string p.text) r.path),
      ("main_menu", .ofOption MainMenu.toJson r.mainMenu),
      ("statements", .array (Stmt.toJsons r.statements))]

end KconfigLang
