import KconfigLang.Grammar.Property

/-!
# The grammar of statements

A file is an optional title and a block of statements; menus and conditional blocks hold blocks. An entry
may declare its type once.

- `typeConflict?`: the first two type declarations among some properties.
- `statement`: one statement.
- `file`: a whole file.
-/

namespace KconfigLang.Grammar

open Reader

/-- The type declaration that a property is. -/
def declaredType? : Property → Option TypeDecl
  | .type d => some d
  | _ => none

/-- The first two type declarations, if there are two. -/
def typeConflict? (properties : List Property) : Option TypeConflict :=
  match properties.filterMap declaredType? with
  | first :: second :: _ => some ⟨first, second⟩
  | _ => none

/-- An entry that starts with the keyword `word`. -/
def entry (word : Keyword) (name : Construct) : Reader Config :=
  labelled name <| withSpan do
    keyword word
    let id ← symbol
    let properties ← many entryProperty
    report (typeConflict? properties).toList
    return Config.mk id properties

/-- An entry that `config` starts. -/
def configEntry : Reader Config :=
  entry .config .configEntry

/-- An entry that `menuconfig` starts. -/
def menuconfigEntry : Reader Config :=
  entry .menuconfig .menuconfigEntry

/-- A choice; it has at least one member. -/
def choice : Reader Choice :=
  labelled .choice <| withSpan do
    keyword .choice
    let properties ← many choiceProperty
    let members ← many1 configEntry
    keyword .endchoice
    return Choice.mk properties members

/-- A displayed comment. -/
def comment : Reader Comment :=
  labelled .comment <| withSpan do
    keyword .comment
    let text ← string
    let properties ← many dependsOn
    return Comment.mk text properties

/-- A menu whose statements `inner` reads. -/
def menu (inner : Reader Stmt) : Reader Stmt :=
  labelled .menu <| withSpan do
    keyword .menu
    let title ← string
    let properties ← many menuProperty
    let body ← many inner
    keyword .endmenu
    return fun span => .menu ⟨title, properties, span⟩ body

/-- A conditional block whose statements `inner` reads. -/
def ifBlock (inner : Reader Stmt) : Reader Stmt :=
  labelled .ifBlock <| withSpan do
    keyword .ifBlock
    let cond ← expression
    let body ← many inner
    keyword .endif
    return Stmt.ifBlock cond body

/-- The inclusion of a file. -/
def source : Reader Source :=
  labelled .source <| withSpan do
    let kind ← oneOf fun
      | .keyword .source => some SourceKind.plain
      | .keyword .rsource => some .relative
      | .keyword .osource => some .optional
      | .keyword .orsource => some .optionalRelative
      | _ => none
    let path ← string
    return Source.mk kind path

/-- A statement, where `inner` reads the statements inside it. -/
def statementBody (inner : Reader Stmt) : Reader Stmt :=
  firstOf
    [Stmt.config <$> configEntry, Stmt.menuconfig <$> menuconfigEntry, Stmt.choice <$> choice,
      Stmt.comment <$> comment, menu inner, ifBlock inner, Stmt.source <$> source]

/-- A statement. -/
def statement : Reader Stmt :=
  fix statementBody

/-- The title of a configuration. -/
def mainMenu : Reader MainMenu :=
  labelled .mainmenu <| withSpan do
    keyword .mainmenu
    let title ← string
    return MainMenu.mk title

/-- A whole file: an optional title and a block. -/
def file (id : FileId) : Reader Root := do
  let title ← optional mainMenu
  let statements ← many statement
  return { file := id, path := none, mainMenu := title, statements }

end KconfigLang.Grammar
