import KconfigLang.Settings.Basic

/-!
# The settings file

A file that the user names has to exist; the default one need not.
-/

namespace KconfigLang

/-- Why a settings file cannot be used. -/
inductive SettingsError where
  /-- The file cannot be read. -/
  | unreadable (path : Path) (cause : IoError)
  /-- The file is no settings file. -/
  | malformed (path : Path)
  deriving DecidableEq, Repr, Inhabited

/-- What was tried when the error came up. -/
def SettingsError.message : SettingsError → String
  | unreadable path _ => "reading " ++ path.text
  | malformed path => "parsing " ++ path.text

namespace Settings

/-- The settings in a file. -/
def ofFile (loader : Loader) (path : Path) : Except SettingsError Settings :=
  match loader.read path with
  | .error e => .error (.unreadable path e)
  | .ok text =>
    match ofText? text with
    | none => .error (.malformed path)
    | some settings => .ok settings

/-- The default settings file in a directory for settings. -/
def defaultFile (directory : Path) : Path :=
  directory.join ⟨"kconfig/config.toml"⟩

/-- The settings in the file that the user names, or else in the default one if there is one. -/
def load (loader : Loader) (directory : Path) : Option Path → Except SettingsError Settings
  | some path => ofFile loader path
  | none =>
    match loader.canonicalize (defaultFile directory) with
    | .ok _ => ofFile loader (defaultFile directory)
    | .error _ => .ok {}

end Settings

end KconfigLang
