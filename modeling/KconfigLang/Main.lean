import KconfigLang.Command.Run
import KconfigLang.Files.Answers
import KconfigLang.Files.DiskTree

/-!
# The program

Reads the command line and the settings, runs the command and prints its outcome. The commands themselves are
pure: where one needs a file that was not read yet it says so, the file is read, and the command runs again.
-/

namespace KconfigLang.Program

/-- A failure of the system in the words of a file tree. -/
def ioError : IO.Error → IoError
  | .noFileOrDirectory .. => DiskTree.noEntry
  | .permissionDenied .. => ⟨.permissionDenied, "Permission denied (os error 13)"⟩
  | .inappropriateType _ 20 _ => DiskTree.notADirectory
  | .inappropriateType _ 21 _ => DiskTree.isADirectory
  | e => ⟨.other, toString e⟩

/-- What the system knows of a path. -/
def ask (path : Path) : IO Answer := do
  let canonical ← (IO.FS.realPath path.text).toBaseIO
  let text ← (IO.FS.readFile path.text).toBaseIO
  return {
    canonical := match canonical with
      | .ok p => .ok ⟨p.toString⟩
      | .error e => .error (ioError e)
    text := match text with
      | .ok s => .ok s
      | .error e => .error (ioError e) }

/-- The variables of the environment. -/
def environment : IO (List (String × String)) := do
  match ← (IO.FS.readFile "/proc/self/environ").toBaseIO with
  | .error _ => return []
  | .ok text =>
    return (Text.splitOn '\x00' text.toList).filterMap fun entry => binding? (String.ofList entry)

/-- The directory for settings of the user. -/
def settingsDirectory (env : String → Option String) : Path :=
  match env "XDG_CONFIG_HOME" with
  | some dir => if Path.isAbsolute ⟨dir⟩ then ⟨dir⟩ else fallback
  | none => fallback
where
  /-- The directory below the home directory. -/
  fallback : Path := Path.join ⟨(env "HOME").getD "/tmp"⟩ ⟨".config"⟩

/-- Runs a command with the answers that are known, and with more until none is wanted. -/
partial def attempt (run : Loader → Outcome) (answers : List (Path × Answer)) : IO Outcome := do
  let outcome := run (.ofAnswers answers)
  match outcome.wanted? with
  | none => return outcome
  | some path => attempt run ((path, ← ask path) :: answers)

/-- What is said of a wrong command line. -/
def usageText : UsageError → String
  | .help | .noArguments => "usage: kconfig [--config FILE] (parse | resolve | symbols | eval) ..."
  | .version => "kconfig 0.3.0"
  | .missingSubcommand => "error: a command is required"
  | .unknownSubcommand => "error: unrecognized command"
  | .unknownArgument => "error: unexpected argument"
  | .missingOperand => "error: a required argument was not provided"
  | .missingValue => "error: an option has no value"
  | .badValue => "error: invalid value for an option"
  | .surplusValue => "error: unexpected value for an option"
  | .repeatedOption => "error: an option cannot be used multiple times"

/-- Prints what is wrong with a command line; asking for help or for the version is no failure. -/
def endWithUsage (e : UsageError) : IO UInt32 := do
  if e = .help || e = .version then
    IO.println (usageText e)
    return 0
  IO.eprintln (usageText e)
  return 2

/-- Prints an outcome. -/
def endWith (outcome : Outcome) : IO UInt32 := do
  IO.print outcome.stdout
  match outcome.failure with
  | none => return 0
  | some e =>
    IO.eprint (e.report?.getD ("error: " ++ e.message ++ "\n"))
    return 1

/-- Runs a command line. -/
def runLine (env : String → Option String) (line : CommandLine) : IO UInt32 := do
  let directory := settingsDirectory env
  let file := line.config.getD (Settings.defaultFile directory)
  let answers := [(file, ← ask file)]
  match Settings.load (.ofAnswers answers) directory line.config with
  | .error e =>
    IO.eprintln ("error: " ++ e.message)
    return 1
  | .ok settings => endWith (← attempt (fun loader => line.command.run { loader, env } settings) answers)

end KconfigLang.Program

/-- The program. -/
def main (args : List String) : IO UInt32 := do
  let vars ← KconfigLang.Program.environment
  let env (name : String) : Option String := vars.lookup name
  match KconfigLang.CommandLine.read env args with
  | .error e => KconfigLang.Program.endWithUsage e
  | .ok line => KconfigLang.Program.runLine env line
