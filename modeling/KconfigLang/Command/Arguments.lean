import KconfigLang.Path
import KconfigLang.Text.Numeral
import KconfigLang.Text.Trim

/-!
# Command lines

The arguments of the program: options of the program, a command, and the options and operands of the command.
Options start with a dash; what follows `--` are operands.

- `Subcommand` and `Switch`: the commands and their options.
- `Scan`: what has been read of a command's arguments.
- `CommandLine.read`: a command line, or why there is none.
-/

namespace KconfigLang

/-- The commands. -/
inductive Subcommand where
  | parse
  | resolve
  | symbols
  | eval
  deriving DecidableEq, Repr, Inhabited

/-- The command with a name. -/
def Subcommand.ofName? : String → Option Subcommand
  | "parse" => some parse
  | "resolve" => some resolve
  | "symbols" => some symbols
  | "eval" => some eval
  | _ => none

/-- The options. -/
inductive Switch where
  | help
  | version
  | config
  | json
  | sourceTree
  | env
  | maxDepth
  | set
  | strict
  deriving DecidableEq, Repr, Inhabited

/-- Why a command line gives nothing to run. -/
inductive UsageError where
  /-- The user asks for help. -/
  | help
  /-- The user asks for the version. -/
  | version
  /-- There are no arguments at all. -/
  | noArguments
  | missingSubcommand
  | unknownSubcommand
  | unknownArgument
  /-- An operand is missing. -/
  | missingOperand
  /-- An option has no value, or an empty one where that cannot be. -/
  | missingValue
  /-- The value of an option does not have the right form. -/
  | badValue
  /-- An option that takes no value has one. -/
  | surplusValue
  /-- An option is given twice. -/
  | repeatedOption
  deriving DecidableEq, Repr, Inhabited

namespace Switch

/-- Whether an option takes a value. -/
def takesValue : Switch → Bool
  | config | sourceTree | env | maxDepth | set => true
  | help | version | json | strict => false

/-- Whether an option can be given more than once. -/
def repeats : Switch → Bool
  | env | set => true
  | _ => false

/-- The option of a command with a long name; no command stands for the program itself. -/
def ofLong? (command : Option Subcommand) (name : String) : Option Switch :=
  match name, command with
  | "help", _ => some help
  | "config", _ => some config
  | "version", none => some version
  | "json", some .parse | "json", some .resolve => some json
  | "srctree", some .resolve | "srctree", some .symbols => some sourceTree
  | "env", some .resolve | "env", some .symbols => some env
  | "max-depth", some .resolve | "max-depth", some .symbols => some maxDepth
  | "set", some .eval => some set
  | "strict", some .eval => some strict
  | _, _ => none

/-- The option of a command with a short name. -/
def ofShort? (command : Option Subcommand) (letter : Char) : Option Switch :=
  match letter, command with
  | 'h', _ => some help
  | 'V', none => some version
  | _, _ => none

end Switch

/-! ## Values -/

/-- The name and the value in a text such as `NAME=VALUE`. -/
def binding? (text : String) : Option (String × String) :=
  match Text.splitOnce? '=' text.toList with
  | some (name, value) =>
    if name.isEmpty then none else some (String.ofList name, String.ofList value)
  | none => none

/-- The number that digits with an optional plus sign denote, if it fits into 64 bits. -/
def depth? (text : String) : Option Nat :=
  let digits := match text.toList with
    | '+' :: ds => ds
    | ds => ds
  if !digits.isEmpty && digits.all Char.isDigit then
    let n := Text.digitsValue 10 digits
    if n < UInt64.size then some n else none
  else none

/-- Why a text cannot be the value of an option, if it cannot. -/
def Switch.fault? (switch : Switch) (value : String) : Option UsageError :=
  match switch with
  | config | sourceTree => if value.isEmpty then some .missingValue else none
  | env => if (binding? value).isNone then some .badValue else none
  | maxDepth => if (depth? value).isNone then some .badValue else none
  | help | version | json | set | strict => none

/-! ## Scanning -/

/-- What was read last and is not settled yet. -/
inductive Pending where
  | nothing
  /-- An option that waits for its value. -/
  | awaiting (switch : Switch)
  /-- An option with its value. -/
  | valued (switch : Switch) (value : String)
  /-- Operands. -/
  | operands (values : List String)
  deriving DecidableEq, Repr, Inhabited

/-- What has been read of the arguments of a command or of the program itself. -/
structure Scan where
  /-- The command; none for the program itself. -/
  command : Option Subcommand
  /-- The options with their values, in order; an option without value has an empty one. -/
  options : List (Switch × String) := []
  /-- The settled operands in order. -/
  operands : List String := []
  /-- The number of operands, settled or not. -/
  operandCount : Nat := 0
  /-- What is not settled yet. -/
  pending : Pending := .nothing
  /-- Whether only operands can follow. -/
  operandsOnly : Bool := false
  deriving Repr, Inhabited

namespace Scan

/-- Whether the operands of a command are paths, which cannot be empty. -/
def takesPaths (s : Scan) : Bool :=
  s.command ≠ some .eval

/-- Adds an option with its value. -/
def addOption (s : Scan) (switch : Switch) (value : String) : Except UsageError Scan :=
  if !switch.repeats && s.options.any (·.1 == switch) then .error .repeatedOption
  else
    match switch.fault? value with
    | some fault => .error fault
    | none => .ok { s with options := s.options ++ [(switch, value)] }

/-- Settles what was read last. -/
def settle (s : Scan) : Except UsageError Scan :=
  match s.pending with
  | .nothing => .ok s
  | .awaiting _ => .error .missingValue
  | .valued switch value => { s with pending := .nothing }.addOption switch value
  | .operands values =>
    if s.takesPaths && values.any String.isEmpty then .error .missingValue
    else .ok { s with pending := .nothing, operands := s.operands ++ values }

/-- Reads an option without value. -/
def addFlag (s : Scan) (switch : Switch) : Except UsageError Scan := do
  let s ← s.settle
  match switch with
  | .help => .error .help
  | .version => .error .version
  | switch => s.addOption switch ""

/-- Reads an operand. -/
def addOperand (s : Scan) (text : String) : Except UsageError Scan :=
  match s.command with
  | none =>
    if s.operandsOnly && (text == "help" || (Subcommand.ofName? text).isSome) then
      .error .unknownArgument
    else .error .unknownSubcommand
  | some .symbols =>
    match s.pending with
    | .operands values =>
      .ok { s with pending := .operands (values ++ [text]), operandCount := s.operandCount + 1 }
    | _ => do
      let s ← s.settle
      return { s with pending := .operands [text], operandCount := s.operandCount + 1 }
  | some _ =>
    if s.operandCount = 0 then do
      let s ← s.settle
      return { s with pending := .operands [text], operandCount := 1 }
    else .error .unknownArgument

/-- Reads an option with a long name. -/
def addLong (s : Scan) (name : String) (value : Option String) : Except UsageError Scan :=
  match Switch.ofLong? s.command name with
  | none => .error .unknownArgument
  | some switch =>
    if switch.takesValue then do
      let s ← s.settle
      match value with
      | some value => s.addOption switch value
      | none => return { s with pending := .awaiting switch }
    else if value.isSome then .error .surplusValue
    else s.addFlag switch

/-- Reads one argument that is no command. -/
def add (s : Scan) (text : String) : Except UsageError Scan :=
  if s.operandsOnly then s.addOperand text
  else
    match text.toList with
    | ['-', '-'] => .ok { s with operandsOnly := true }
    | '-' :: '-' :: cs =>
      match Text.splitOnce? '=' cs with
      | some (name, value) => s.addLong (String.ofList name) (some (String.ofList value))
      | none => s.addLong (String.ofList cs) none
    | '-' :: c :: _ =>
      match Switch.ofShort? s.command c with
      | some switch => s.addFlag switch
      | none => .error .unknownArgument
    | _ =>
      match s.pending with
      | .awaiting switch => .ok { s with pending := .valued switch text }
      | _ => s.addOperand text

/-- The values of an option in order. -/
def values (s : Scan) (switch : Switch) : List String :=
  (s.options.filter (·.1 == switch)).map (·.2)

/-- The value of an option that is given at most once. -/
def value? (s : Scan) (switch : Switch) : Option String :=
  (s.values switch).head?

/-- Whether an option is given. -/
def has (s : Scan) (switch : Switch) : Bool :=
  s.options.any (·.1 == switch)

end Scan

/-! ## Commands -/

/-- The options of the commands that follow inclusions. -/
structure TreeOptions where
  /-- The directory that inclusions start from. -/
  sourceTree : Option Path
  /-- Variables for paths, in order. -/
  env : List (String × String)
  /-- The number of files that may be nested. -/
  maxDepth : Option Nat
  deriving DecidableEq, Repr, Inhabited

/-- What the program is asked to do. -/
inductive Command where
  /-- Prints the tree of one file. -/
  | parse (file : Path) (json : Bool)
  /-- Prints a whole configuration. -/
  | resolve (file : Path) (tree : TreeOptions) (json : Bool)
  /-- Lists the symbols of some configurations. -/
  | symbols (files : List Path) (tree : TreeOptions)
  /-- Evaluates an expression. -/
  | eval (expression : String) (assignments : List String) (strict : Bool)
  deriving DecidableEq, Repr, Inhabited

/-- A command with the options of the program. -/
structure CommandLine where
  /-- The settings file. -/
  config : Option Path
  /-- What to do. -/
  command : Command
  deriving DecidableEq, Repr, Inhabited

namespace CommandLine

/-- The directory that inclusions start from: an option or a variable of the environment. -/
def sourceTree (env : String → Option String) (s : Scan) : Except UsageError (Option Path) :=
  match s.value? .sourceTree, env "srctree" with
  | some path, _ => .ok (some ⟨path⟩)
  | none, some "" => .error .missingValue
  | none, path => .ok (path.map Path.mk)

/-- The options of a command that follows inclusions. -/
def treeOptions (env : String → Option String) (s : Scan) : Except UsageError TreeOptions := do
  let sourceTree ← sourceTree env s
  return { sourceTree, env := (s.values .env).filterMap binding?,
           maxDepth := (s.value? .maxDepth).bind depth? }

/-- The command that the arguments of the named one describe. -/
def describe (env : String → Option String) (name : Subcommand) (s : Scan) :
    Except UsageError Command :=
  match name with
  | .parse =>
    match s.operands with
    | file :: _ => .ok (.parse ⟨file⟩ (s.has .json))
    | [] => .error .missingOperand
  | .resolve => do
    let tree ← treeOptions env s
    match s.operands with
    | file :: _ => .ok (.resolve ⟨file⟩ tree (s.has .json))
    | [] => .error .missingOperand
  | .symbols => do
    let tree ← treeOptions env s
    if s.operands.isEmpty then .error .missingOperand
    else .ok (.symbols (s.operands.map Path.mk) tree)
  | .eval =>
    match s.operands with
    | expression :: _ => .ok (.eval expression (s.values .set) (s.has .strict))
    | [] => .error .missingOperand

/-- Reads the arguments behind `help`, which name at most one command. -/
def readHelp : List String → UsageError
  | [] => .help
  | [name] => if name == "help" || (Subcommand.ofName? name).isSome then .help else .unknownSubcommand
  | _ => .unknownSubcommand

/-- Reads the arguments behind a command, given those before it. The settings file may be named in both places;
the later one counts. -/
def readCommand (env : String → Option String) (program : Scan) (name : Subcommand)
    (args : List String) : Except UsageError CommandLine := do
  let scan : Scan := { command := some name }
  let scan ← args.foldlM Scan.add scan
  let scan ← scan.settle
  let command ← describe env name scan
  let program ← program.settle
  return { config := ((scan.value? .config).or (program.value? .config)).map Path.mk, command }

/-- Reads the arguments of the program, given what has been read. -/
def readProgram (env : String → Option String) (program : Scan) : List String → Except UsageError CommandLine
  | [] => do
    let program ← program.settle
    if program.options.isEmpty then .error .noArguments else .error .missingSubcommand
  | arg :: args =>
    let isValue := match program.pending with
      | .awaiting _ => true
      | _ => false
    if program.operandsOnly || isValue then
      match program.add arg with
      | .error e => .error e
      | .ok program => readProgram env program args
    else if arg == "help" then .error (readHelp args)
    else
      match Subcommand.ofName? arg with
      | some name => readCommand env program name args
      | none =>
        match program.add arg with
        | .error e => .error e
        | .ok program => readProgram env program args

/-- The command line that some arguments describe, in an environment of variables. -/
def read (env : String → Option String) (args : List String) : Except UsageError CommandLine :=
  readProgram env { command := none } args

end CommandLine

end KconfigLang
