import KconfigLang.Files.Loader
import KconfigLang.Grammar.Parse
import KconfigLang.Text.Duration

/-!
# Errors of inclusion

Why a file or a whole configuration cannot be read. Where an error is about a statement it carries the file
and the span of that statement.
-/

namespace KconfigLang

/-- Why a file gives no tree. -/
inductive LoadError where
  /-- The file cannot be read. -/
  | io (path : Path) (cause : IoError)
  /-- The text of the file is wrong. -/
  | text (path : Path) (cause : SyntaxError)
  deriving DecidableEq, Repr, Inhabited

namespace LoadError

/-- The file that gives no tree. -/
def path : LoadError → Path
  | io p _ => p
  | text p _ => p

/-- The message of an error. -/
def message : LoadError → String
  | io p cause => p.text ++ ": " ++ cause.message
  | text p cause => p.text ++ ":" ++ cause.message

end LoadError

/-- Why a configuration cannot be resolved. -/
inductive ResolveError where
  /-- An inclusion leads to no file. -/
  | noTarget (target referrer : Path) (span : Span) (cause : IoError)
  /-- A file includes itself; the files from the outermost to the one that repeats. -/
  | cycle (files : List Path) (referrer : Path) (span : Span)
  /-- Inclusions are nested too deeply. -/
  | tooDeep (limit : Nat) (target referrer : Path) (span : Span)
  /-- The session was cancelled. -/
  | cancelled
  /-- The session took longer than its limit in milliseconds. -/
  | timedOut (limit : Nat)
  /-- A choice has no member. -/
  | emptyChoice (path : Path) (span : Span)
  /-- A file gives no tree. -/
  | load (cause : LoadError)
  deriving DecidableEq, Repr, Inhabited

namespace ResolveError

/-- The span of the statement at fault. -/
def span? : ResolveError → Option Span
  | noTarget _ _ s _ | cycle _ _ s | tooDeep _ _ _ s | emptyChoice _ s => some s
  | load (.text _ cause) => some cause.span
  | load (.io _ _) | cancelled | timedOut _ => none

/-- The file at fault, which a span points into. -/
def file? : ResolveError → Option Path
  | noTarget _ p _ _ | cycle _ p _ | tooDeep _ _ p _ | emptyChoice p _ => some p
  | load cause => some cause.path
  | cancelled | timedOut _ => none

/-- A place in a file. -/
def place (path : Path) (span : Span) : String :=
  path.text ++ ":" ++ span.text ++ ": "

/-- The message of an error. -/
def message : ResolveError → String
  | noTarget target referrer span cause =>
    place referrer span ++ "cannot source " ++ target.text ++ ": " ++ cause.message
  | cycle files referrer span =>
    place referrer span ++ "cyclic inclusion: " ++ " -> ".intercalate (files.map Path.text)
  | tooDeep limit target referrer span =>
    place referrer span ++ "sourcing " ++ target.text ++ " exceeds the inclusion depth limit of "
      ++ toString limit
  | cancelled => "resolution cancelled"
  | timedOut limit => "resolution exceeded its time limit of " ++ Text.durationText limit
  | emptyChoice path span => place path span ++ "choice has no entries"
  | load cause => cause.message

end ResolveError

end KconfigLang
