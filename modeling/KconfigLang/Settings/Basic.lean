import KconfigLang.Inclusion.Session
import KconfigLang.Settings.Entry

/-!
# Settings

What a user can set in a file. Every setting may be missing; the command line comes before the file, and the
file before the defaults.

- `Settings`: the settings.
- `Settings.ofText?`: the settings that a file states.
- `Settings.limits`: the limits of a session under the settings.
-/

namespace KconfigLang

/-- The settings of a user. -/
structure Settings where
  /-- The directory that inclusions start from. -/
  sourceTree : Option Path := none
  /-- The number of files that may be nested. -/
  maxDepth : Option Nat := none
  /-- Whether a file is parsed only once. -/
  cache : Option Bool := none
  /-- The milliseconds that a session may take. -/
  timeLimit : Option Nat := none
  /-- How much is logged. -/
  logLevel : Option String := none
  /-- Variables for paths, in the order of the file. -/
  env : List (String × String) := []
  deriving DecidableEq, Repr, Inhabited

namespace Settings

/-- How much is logged unless a setting says so. -/
def defaultLogLevel : String := "warn"

/-- How much is logged. -/
def effectiveLogLevel (s : Settings) : String :=
  s.logLevel.getD defaultLogLevel

/-- The limits of a session, where `maxDepth` comes from the command line. -/
def limits (s : Settings) (maxDepth : Option Nat) : Limits :=
  { maxDepth := ((maxDepth.or s.maxDepth).getD 64), cache := s.cache.getD true, timeLimit := s.timeLimit }

/-! ## Reading -/

/-- How the table of variables has been given so far. -/
inductive EnvForm where
  | absent
  /-- By keys with a dot, which more such keys may follow. -/
  | dotted
  /-- By a header or between braces, once and for all. -/
  | closed
  deriving DecidableEq, Repr, Inhabited

/-- What a file has stated so far. -/
structure Draft where
  settings : Settings := {}
  /-- How the table of variables was given. -/
  env : EnvForm := .absent
  /-- Whether entries belong to the table of variables. -/
  inEnv : Bool := false
  deriving DecidableEq, Repr, Inhabited

/-- A number that fits into 64 bits. -/
def natural? : SettingsScalar → Option Nat
  | .integer n => if 0 ≤ n && n < UInt64.size then some n.toNat else none
  | _ => none

/-- A string. -/
def text? : SettingsScalar → Option String
  | .text s => some s
  | _ => none

/-- A truth value. -/
def bool? : SettingsScalar → Option Bool
  | .bool b => some b
  | _ => none

/-- One more variable, unless there is one with its name. -/
def addVariable? (s : Settings) (name : String) (value : SettingsScalar) : Option Settings := do
  let value ← text? value
  guard (s.env.lookup name).isNone
  return { s with env := s.env ++ [(name, value)] }

/-- One more setting, unless it was stated before. -/
def set? (s : Settings) (key : String) (value : SettingsScalar) : Option Settings :=
  match key with
  | "srctree" => do
    guard s.sourceTree.isNone
    return { s with sourceTree := some ⟨← text? value⟩ }
  | "max_include_depth" => do
    guard s.maxDepth.isNone
    return { s with maxDepth := some (← natural? value) }
  | "cache" => do
    guard s.cache.isNone
    return { s with cache := some (← bool? value) }
  | "time_limit_ms" => do
    guard s.timeLimit.isNone
    return { s with timeLimit := some (← natural? value) }
  | "log_level" => do
    guard s.logLevel.isNone
    return { s with logLevel := some (← text? value) }
  | _ => none

/-- What a file has stated after one more line; none if the line has no place there. -/
def Draft.add? (d : Draft) : SettingsLine → Option Draft
  | .header ["env"] =>
    if d.env = .absent then some { d with env := .closed, inEnv := true } else none
  | .header _ => none
  | .entry [key] (.scalar value) =>
    (if d.inEnv then addVariable? d.settings key value else set? d.settings key value).map fun s =>
      { d with settings := s }
  | .entry ["env"] (.table entries) => do
    guard (!d.inEnv && d.env = .absent)
    let settings ← entries.foldlM (fun s (name, value) => addVariable? s name value) d.settings
    return { d with settings, env := .closed }
  | .entry ["env", name] (.scalar value) => do
    guard (!d.inEnv && d.env ≠ .closed)
    return { d with settings := ← addVariable? d.settings name value, env := .dotted }
  | .entry _ _ => none

/-- The settings that a file states; none if it is no settings file. -/
def ofText? (text : String) : Option Settings := do
  let lines ← settingsLines? text
  let draft ← lines.foldlM Draft.add? {}
  return draft.settings

end Settings

end KconfigLang
