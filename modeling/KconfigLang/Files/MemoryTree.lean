import KconfigLang.Files.Loader

/-!
# Files in memory

A tree of files without directories or links: a file is known by its normal path, and every path with that
normal form leads to it.
-/

namespace KconfigLang

/-- Texts by normal path; each path occurs once. -/
structure MemoryTree where
  /-- The normal paths with their texts, in the order in which they were first inserted. -/
  files : List (Path × String)
  deriving DecidableEq, Repr, Inhabited

namespace MemoryTree

/-- The tree without files. -/
def empty : MemoryTree := ⟨[]⟩

/-- Puts a pair in place of the one with the same path, or behind all others. -/
def put (path : Path) (text : String) : List (Path × String) → List (Path × String)
  | [] => [(path, text)]
  | (p, old) :: rest => if p = path then (path, text) :: rest else (p, old) :: put path text rest

/-- Gives the file that a path leads to a text. -/
def insert (tree : MemoryTree) (path : Path) (text : String) : MemoryTree :=
  ⟨put path.normal text tree.files⟩

/-- The text of the file that a path leads to. -/
def text? (tree : MemoryTree) (path : Path) : Option String :=
  tree.files.lookup path.normal

/-- The failure of a path that leads to no file. -/
def missing (path : Path) : IoError :=
  ⟨.notFound, "no such file: " ++ path.text⟩

/-- The tree as a loader. -/
def loader (tree : MemoryTree) : Loader where
  canonicalize path :=
    match tree.text? path with
    | some _ => .ok path.normal
    | none => .error (missing path)
  read path :=
    match tree.text? path with
    | some text => .ok text
    | none => .error (missing path)

end MemoryTree

end KconfigLang
