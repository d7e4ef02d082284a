import KconfigLang.Files.Loader
import KconfigLang.Text.Trim
import KconfigLang.Text.Utf8

/-!
# Files and directories

A tree of files and directories without links. A path is followed component by component, and every component
but the last has to lead to a directory; so does the last one if a slash follows it.

- `DiskTree.walk`: the names from the root that a path leads to.
- `DiskTree.loader`: the tree as seen from a working directory.
-/

namespace KconfigLang

/-- What a name in a directory is. -/
inductive DiskEntry where
  | file (text : String)
  | directory
  deriving DecidableEq, Repr, Inhabited

/-- Files and directories, each given by the names from the root; what leads to them are directories too. -/
structure DiskTree where
  /-- The files with their texts. -/
  files : List (List (List Char) × String)
  /-- Directories that exist whether they hold files or not. -/
  directories : List (List (List Char))
  deriving DecidableEq, Repr, Inhabited

namespace DiskTree

/-- A component that leads nowhere. -/
def noEntry : IoError := ⟨.notFound, "No such file or directory (os error 2)"⟩

/-- A component behind a file. -/
def notADirectory : IoError := ⟨.notADirectory, "Not a directory (os error 20)"⟩

/-- A directory in place of a file. -/
def isADirectory : IoError := ⟨.isADirectory, "Is a directory (os error 21)"⟩

/-- A component of more than 255 bytes. -/
def nameTooLong : IoError := ⟨.invalidName, "File name too long (os error 36)"⟩

/-- A path with a null character. -/
def nullInPath : IoError := ⟨.invalidInput, "file name contained an unexpected NUL byte"⟩

/-- What the names from the root lead to. -/
def entry? (tree : DiskTree) (names : List (List Char)) : Option DiskEntry :=
  match tree.files.lookup names with
  | some text => some (.file text)
  | none =>
    if names.isEmpty || tree.directories.any names.isPrefixOf ||
        tree.files.any fun (file, _) => names.isPrefixOf file then
      some .directory
    else none

/-- Follows one component from a directory. -/
def step (tree : DiskTree) (dir : List (List Char)) (component : List Char) :
    Except IoError (List (List Char)) :=
  match tree.entry? dir with
  | none => .error noEntry
  | some (.file _) => .error notADirectory
  | some .directory =>
    if component = [] || component = ['.'] then .ok dir
    else if component = ['.', '.'] then .ok dir.dropLast
    else if 255 < Text.byteLength component then .error nameTooLong
    else if (tree.entry? (dir ++ [component])).isSome then .ok (dir ++ [component])
    else .error noEntry

/-- The names from the root that a path leads to when it starts in the directory `home`. -/
def walk (tree : DiskTree) (home : List (List Char)) (path : Path) : Except IoError (List (List Char)) :=
  let cs := path.text.toList
  if cs.isEmpty then .error noEntry
  else if cs.contains '\x00' then .error nullInPath
  else (Text.splitOn '/' cs).foldlM tree.step (if path.isAbsolute then [] else home)

/-- The tree as a loader, where relative paths start in the directory `home`. -/
def loader (tree : DiskTree) (home : List (List Char)) : Loader where
  canonicalize path := (tree.walk home path).map Path.ofNames
  read path :=
    match tree.walk home path with
    | .error e => .error e
    | .ok names =>
      match tree.entry? names with
      | some (.file text) => .ok text
      | some .directory => .error isADirectory
      | none => .error noEntry

end DiskTree

end KconfigLang
