import KconfigLang.Path

/-!
# Loaders

Where files come from: a loader tells which file a path leads to and what the file holds, or why it cannot.
-/

namespace KconfigLang

/-- The kinds of failures to find or read a file. -/
inductive IoKind where
  | notFound
  | permissionDenied
  | notADirectory
  | isADirectory
  /-- The path cannot be a path at all. -/
  | invalidInput
  /-- A name in the path is longer than names can be. -/
  | invalidName
  /-- The question was not put to the tree yet. -/
  | unasked
  | other
  deriving DecidableEq, Repr, Inhabited

/-- A failure to find or read a file. -/
structure IoError where
  /-- What kind of failure it is. -/
  kind : IoKind
  /-- What is said of it. -/
  message : String
  deriving DecidableEq, Repr, Inhabited

/-- A tree of files that can be read. -/
structure Loader where
  /-- The path by which a file is known, whatever path leads to it. -/
  canonicalize : Path → Except IoError Path
  /-- The text of a file. -/
  read : Path → Except IoError String

end KconfigLang
