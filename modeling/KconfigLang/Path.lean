/-!
# Paths

Paths of files as text, with `/` between components. A path keeps its spelling; only `Path.normal` changes it.

- `Path.join`: a path taken from a directory.
- `Path.parent?`: the directory part of a path.
- `Path.components`: the parts of a path, without empty ones and without `.`.
- `Path.normal`: the absolute path without `.` and `..` that a path stands for in a tree without links.
-/

namespace KconfigLang

/-- A path. -/
structure Path where
  /-- The spelling of the path. -/
  text : String
  deriving DecidableEq, Repr, Inhabited

namespace Path

/-- Whether a path starts at the root. -/
def isAbsolute (p : Path) : Bool :=
  p.text.toList.head? == some '/'

/-- The path `p` taken from the directory `dir`. -/
def join (dir p : Path) : Path :=
  if p.isAbsolute then p
  else if dir.text.isEmpty || dir.text.toList.getLast? == some '/' then ⟨dir.text ++ p.text⟩
  else ⟨dir.text ++ "/" ++ p.text⟩

/-- The names and `..` between the slashes. -/
def components (p : Path) : List (List Char) :=
  (p.text.toList.splitOn '/').filter fun c => c ≠ [] && c ≠ ['.']

/-- Follows one component: `..` leaves a directory and stays at the root. -/
def follow (dir : List (List Char)) (component : List Char) : List (List Char) :=
  if component = ['.', '.'] then dir.dropLast else dir ++ [component]

/-- The names from the root that a path leads to when it starts at `dir`. -/
def followAll (dir : List (List Char)) (p : Path) : List (List Char) :=
  p.components.foldl follow dir

/-- The absolute path with the given names. -/
def ofNames (names : List (List Char)) : Path :=
  ⟨String.ofList ('/' :: ['/'].intercalate names)⟩

/-- The absolute path without `.` and `..` that a path from the root stands for. -/
def normal (p : Path) : Path :=
  ofNames (p.followAll [])

/-! ## The directory part -/

/-- Drops slashes and `.` components from the end of a reversed path. -/
def dropIdleEnd : List Char → List Char
  | '/' :: cs => dropIdleEnd cs
  | '.' :: '/' :: cs => dropIdleEnd cs
  | cs => cs

/-- The path without its last component; none for the root and the empty path. -/
def parent? (p : Path) : Option Path :=
  let body := dropIdleEnd p.text.toList.reverse
  if body.isEmpty then none
  else
    let dir := dropIdleEnd (body.dropWhile (· ≠ '/'))
    if dir.isEmpty then some ⟨if p.isAbsolute then "/" else ""⟩
    else some ⟨String.ofList dir.reverse⟩

end Path

end KconfigLang
