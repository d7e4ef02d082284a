import KconfigLang.Command.Arguments
import KconfigLang.Env
import KconfigLang.Eval
import KconfigLang.Inclusion.Resolve
import KconfigLang.Report
import KconfigLang.Settings.File
import KconfigLang.Text.Variables
import KconfigLang.Tree.Json
import KconfigLang.Tree.SExpr

/-!
# Running commands

- `RunError`: why a command fails.
- `Outcome`: what a command prints and how it ends.
- `Command.run`: the outcome of a command.
-/

namespace KconfigLang

/-- Why a command fails. -/
inductive RunError where
  /-- A configuration cannot be resolved; with the text of the file at fault if the error is about a place in
  it. -/
  | unresolved (cause : ResolveError) (text : Option String)
  /-- The text is no expression. -/
  | expression (cause : SyntaxError) (text : String)
  /-- The operands of the expression in a text do not fit. -/
  | mismatch (cause : TypeMismatch) (text : String)
  /-- A text is no assignment. -/
  | assignment (cause : AssignError)
  deriving DecidableEq, Repr, Inhabited

namespace ResolveError

/-- The failure to read a file behind an error, if there is one. -/
def ioCause? : ResolveError → Option IoError
  | noTarget _ _ _ cause => some cause
  | load (.io _ cause) => some cause
  | _ => none

/-- What is written under the statement at fault. -/
def label : ResolveError → String
  | noTarget .. => "cannot read this file"
  | cycle .. => "this source closes the cycle"
  | tooDeep .. => "nested too deeply"
  | emptyChoice .. => "empty choice"
  | _ => "here"

/-- An error drawn under the text of its file, if it has a place there. -/
def report? (e : ResolveError) (text : String) : Option String :=
  match e with
  | load (.text _ cause) => some (cause.report text)
  | e => e.span?.map fun span => span.report text e.message e.label

end ResolveError

namespace RunError

/-- An error drawn under the text that it is about. -/
def report? : RunError → Option String
  | unresolved cause text => text.bind cause.report?
  | expression cause text => some (cause.report text)
  | mismatch cause text => some (cause.span.report text cause.message "type mismatch")
  | assignment _ => none

/-- The message of an error, followed by that of the failure behind it. -/
def message : RunError → String
  | unresolved cause _ => cause.message ++ cause.ioCause?.elim "" fun io => ": " ++ io.message
  | expression cause _ => cause.message
  | mismatch cause _ => cause.message
  | assignment cause => cause.message

/-- An error of inclusion with the text of the file at fault, if that can be read. -/
def ofResolve (loader : Loader) (e : ResolveError) : RunError :=
  unresolved e <|
    match e.file?, e.span? with
    | some file, some _ => (loader.read file).toOption
    | _, _ => none

end RunError

/-- What a command prints and how it ends. -/
structure Outcome where
  /-- What is printed. -/
  stdout : String
  /-- Why the command failed, if it did. -/
  failure : Option RunError
  deriving DecidableEq, Repr, Inhabited

namespace Outcome

/-- A command that prints one text and a line end. -/
def line (text : String) : Outcome :=
  ⟨text ++ "\n", none⟩

/-- A command that prints nothing and fails. -/
def failed (e : RunError) : Outcome :=
  ⟨"", some e⟩

/-- The path of which the outcome has to know more, if there is one. -/
def wanted? (o : Outcome) : Option Path :=
  match o.failure with
  | some (.unresolved (.noTarget target _ _ cause) _) =>
    if cause.kind = .unasked then some target else none
  | some (.unresolved (.load (.io path cause)) _) => if cause.kind = .unasked then some path else none
  | _ => none

end Outcome

/-- What a command can see of the system. -/
structure System where
  /-- The files. -/
  loader : Loader
  /-- The variables of the environment. -/
  env : String → Option String

/-! ## Configurations -/

/-- The variables for paths: the last one on the command line, then the settings, then the environment. -/
def pathVariable (system : System) (settings : Settings) (tree : TreeOptions) (name : String) :
    Option String :=
  ((tree.env.reverse.lookup name).or (settings.env.lookup name)).or (system.env name)

/-- The resolver of a command. -/
def treeResolver (system : System) (settings : Settings) (tree : TreeOptions) : Resolver :=
  { loader := system.loader
    expandPath := Text.expand (pathVariable system settings tree)
    base := (tree.sourceTree.or settings.sourceTree).getD ⟨"."⟩
    limits := settings.limits tree.maxDepth }

/-- A tree as JSON or as an S-expression. -/
def treeOutcome (json : Bool) (root : Root) : Outcome :=
  .line (if json then root.toJson.pretty else root.sexpr)

/-- A symbol with its type and the place of its declaration. -/
def symbolLine (sources : SourceMap) (c : Config) : String :=
  c.symbol.name ++ "\t" ++ (c.symbolType?.elim "unknown" SymbolType.text) ++ "\t"
    ++ sources.describe c.span ++ "\n"

/-- Lists the symbols of some configurations up to the first that cannot be resolved. -/
def listSymbols (resolve : Path → Except ResolveError ResolvedTree) (fail : ResolveError → RunError) :
    List Path → Outcome
  | [] => ⟨"", none⟩
  | file :: files =>
    match resolve file with
    | .error e => .failed (fail e)
    | .ok tree =>
      let rest := listSymbols resolve fail files
      ⟨String.join (tree.configs.map (symbolLine tree.sources)) ++ rest.stdout, rest.failure⟩

/-- Evaluates an expression under some assignments. -/
def evalOutcome (expression : String) (assignments : List String) (strict : Bool) : Outcome :=
  match parseExpr expression with
  | .error e => .failed (.expression e expression)
  | .ok e =>
    match assignments.foldlM Env.assign .empty with
    | .error cause => .failed (.assignment cause)
    | .ok env =>
      match eval (if strict then .strict else .lenient) env.lookup e with
      | .error m => .failed (.mismatch m expression)
      | .ok value => .line value.text

/-- The outcome of a command. -/
def Command.run (system : System) (settings : Settings) : Command → Outcome
  | .parse file json =>
    match loadFile system.loader file with
    | .error e => .failed (.ofResolve system.loader (.load e))
    | .ok root => treeOutcome json root
  | .resolve file tree json =>
    match (treeResolver system settings tree).resolveFile file with
    | .error e => .failed (.ofResolve system.loader e)
    | .ok resolved => treeOutcome json resolved.toRoot
  | .symbols files tree =>
    listSymbols (treeResolver system settings tree).resolveFile (.ofResolve system.loader) files
  | .eval expression assignments strict => evalOutcome expression assignments strict

end KconfigLang
