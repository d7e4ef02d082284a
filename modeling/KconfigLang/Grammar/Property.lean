import KconfigLang.Grammar.Expr

/-!
# The grammar of properties

The lines that describe entries, choices, menus and comments, each named for its keyword.
-/

namespace KconfigLang.Grammar

open Reader

/-- A type with an optional prompt and the prompt's condition. -/
def typeDecl : Reader Property :=
  labelled .type <| withSpan do
    let kind ← oneOf fun
      | .keyword .bool => some SymbolType.bool
      | .keyword .tristate => some .tristate
      | .keyword .int => some .int
      | .keyword .hex => some .hex
      | .keyword .string => some .string
      | _ => none
    let shown ← optional do
      let text ← string
      let cond ← condition
      return (text, cond)
    return fun span => .type ⟨kind, shown.map (·.1), shown.bind (·.2), span⟩

/-- A prompt with an optional condition. -/
def prompt : Reader Property :=
  labelled .prompt <| withSpan do
    keyword .prompt
    let text ← string
    let cond ← condition
    return Property.prompt text cond

/-- A keyword, a value and an optional condition; `literal` says how a bare tristate is stored. -/
def defaultValue (word : Keyword) (literal : Expr → Expr) : Reader (Span → DefaultValue) := do
  keyword word
  let value ← expression
  let cond ← condition
  return DefaultValue.mk (literal value) cond

/-- The default of an entry. -/
def default : Reader Property :=
  labelled .default <| withSpan do
    let value ← defaultValue .default Expr.tristateLiteral
    return fun span => .default (value span)

/-- A default that also declares the type bool. -/
def defBool : Reader Property :=
  labelled .defBool <| withSpan do
    let value ← defaultValue .defBool Expr.boolLiteral
    return fun span => .defBool (value span)

/-- A default that also declares the type tristate. -/
def defTristate : Reader Property :=
  labelled .defTristate <| withSpan do
    let value ← defaultValue .defTristate Expr.tristateLiteral
    return fun span => .defTristate (value span)

/-- A dependency. -/
def dependsOn : Reader Property :=
  labelled .dependsOn <| withSpan do
    keyword .depends
    keyword .on
    let cond ← expression
    return Property.dependsOn cond

/-- The condition under which a menu is shown. -/
def visibleIf : Reader Property :=
  labelled .visibleIf <| withSpan do
    keyword .visible
    keyword .ifCondition
    let cond ← expression
    return Property.visible cond

/-- A keyword, a symbol and an optional condition. -/
def reference (word : Keyword) : Reader (Span → Reference) := do
  keyword word
  let target ← symbol
  let cond ← condition
  return Reference.mk target cond

/-- A symbol that the entry forces. -/
def select : Reader Property :=
  labelled .select <| withSpan do
    let target ← reference .select
    return fun span => .select (target span)

/-- A symbol that the entry suggests. -/
def imply : Reader Property :=
  labelled .imply <| withSpan do
    let target ← reference .imply
    return fun span => .imply (target span)

/-- The member that a choice selects by default. -/
def defaultMember : Reader Property :=
  labelled .default <| withSpan do
    let target ← reference .default
    return fun span => .defaultMember (target span)

/-- A bound of a range. -/
def bound : Reader Expr :=
  firstOf [literal, Expr.symbol <$> symbol]

/-- The bounds of a number with an optional condition. -/
def range : Reader Property :=
  labelled .range <| withSpan do
    keyword .range
    let low ← bound
    let high ← bound
    let cond ← condition
    return Property.range low high cond

/-- A help block. -/
def help : Reader Property :=
  labelled .help <| withSpan <| oneOf fun
    | .help body => some (Property.help body)
    | _ => none

/-- An option with an optional value. -/
def option : Reader Property :=
  labelled .option <| withSpan do
    keyword .option
    let name ← oneOf fun
      | .keyword .defconfigList => some OptionName.defconfigList
      | .keyword .modules => some .modules
      | .keyword .env => some .env
      | .keyword .allnoconfigY => some .allnoconfigY
      | .ident name => some (.other name)
      | _ => none
    let value ← optional do
      mark .equal
      string
    return Property.option name value

/-- The properties of an entry. -/
def entryProperty : Reader Property :=
  firstOf [typeDecl, prompt, default, defBool, defTristate, dependsOn, select, imply, range, help, option]

/-- The properties of a choice. -/
def choiceProperty : Reader Property :=
  firstOf [typeDecl, prompt, defaultMember, dependsOn, help, option]

/-- The properties of a menu. -/
def menuProperty : Reader Property :=
  firstOf [dependsOn, visibleIf]

end KconfigLang.Grammar
