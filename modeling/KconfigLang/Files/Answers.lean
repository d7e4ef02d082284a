import KconfigLang.Files.Loader

/-!
# Known answers

What is known of a tree of files that cannot be looked at as a whole: the answers to the questions asked so far.
Every other question fails with `IoKind.unasked`, so that a computation which needs its answer says which it is.
-/

namespace KconfigLang

/-- What is known of a path. -/
structure Answer where
  /-- The path by which the file is known. -/
  canonical : Except IoError Path
  /-- The text of the file. -/
  text : Except IoError String

/-- The failure of a question that was not asked. -/
def Answer.unknown : IoError :=
  ⟨.unasked, "not asked"⟩

/-- The answers as a loader. -/
def Loader.ofAnswers (answers : List (Path × Answer)) : Loader where
  canonicalize path :=
    match answers.lookup path with
    | some answer => answer.canonical
    | none => .error Answer.unknown
  read path :=
    match answers.lookup path with
    | some answer => answer.text
    | none => .error Answer.unknown

end KconfigLang
