import KconfigLang.Inclusion.Session

/-!
# Resolved configurations

A configuration whose inclusions are replaced by the statements of the files they lead to.

- `Resolver.resolveFile`: from the path of the root file.
- `Resolver.resolveRoot`: from the tree of the root file.
- `Resolver.resolveFile?` and `Resolver.resolveRoot?`: the same, unless the program stops without a result.
- `loadFile`: the tree of one file, its inclusions left in place.
-/

namespace KconfigLang

/-- A configuration without inclusions. -/
structure ResolvedTree where
  /-- The number of the root file. -/
  root : FileId
  mainMenu : Option MainMenu
  statements : List Stmt
  /-- The files that statements came from. -/
  sources : SourceMap
  deriving Inhabited

namespace ResolvedTree

/-- All entries in order. -/
def configs (tree : ResolvedTree) : List Config :=
  KconfigLang.configs tree.statements

/-- The path of the root file. -/
def rootPath? (tree : ResolvedTree) : Option Path :=
  tree.sources.path? tree.root

/-- The configuration as the tree of a single file. -/
def toRoot (tree : ResolvedTree) : Root :=
  { file := tree.root, path := tree.rootPath?, mainMenu := tree.mainMenu,
    statements := tree.statements }

end ResolvedTree

namespace Resolver

/-- Expands the tree of the root file; `stack` holds its path if it has one. -/
def finish (r : Resolver) (label : Path) (stack : List Path) (root : Root) : SessionM ResolvedTree := do
  let statements ← r.expandBlock label stack root.statements
  return { root := root.file, mainMenu := root.mainMenu, statements, sources := (← get).sources }

/-- The session that resolves the file at a path. -/
def fileSession (r : Resolver) (path : Path) : SessionM ResolvedTree := do
  match r.loader.canonicalize path with
  | .error e => throw (.load (.io path e))
  | .ok canonical =>
    let root ← r.load canonical
    r.finish path [canonical] root

/-- Resolves the file at a path. -/
def resolveFile (r : Resolver) (path : Path) : Except ResolveError ResolvedTree :=
  (r.fileSession path |>.run |>.run .start).1

/-- The canonical form of a path, or the path itself if it leads to no file. -/
def canonicalOrSelf (r : Resolver) (path : Path) : Path :=
  match r.loader.canonicalize path with
  | .ok canonical => canonical
  | .error _ => path

/-- The session that resolves a tree. If the tree has a path, that file takes part in the check for cycles,
and relative inclusions start at it. -/
def rootSession (r : Resolver) (root : Root) : SessionM ResolvedTree := do
  let label : Path := root.path.getD ⟨"<input>"⟩
  let canonical := root.path.map r.canonicalOrSelf
  modify fun s => { s with sources := s.sources.insertWrapping root.file (canonical.getD label) none }
  r.finish label canonical.toList root

/-- Resolves a tree. -/
def resolveRoot (r : Resolver) (root : Root) : Except ResolveError ResolvedTree :=
  (r.rootSession root |>.run |>.run .start).1

/-! ## How the program ends -/

/-- Whether the clock can show the end of the time limit, if there is one. -/
def hasDeadline (r : Resolver) : Bool :=
  r.limits.timeLimit.all r.surroundings.shows

/-- What the program makes of a session: its result, or nothing where it stops without one. That is at the start if the
clock cannot show the end of the time limit, and later at the first file that is registered under the last number; the
file stays registered, so the end of the session tells. -/
def ending? (r : Resolver) (session : SessionM ResolvedTree) : Option (Except ResolveError ResolvedTree) :=
  let (result, s) := session.run.run .start
  if r.hasDeadline && !s.sources.overflowed then some result else none

/-- Resolves the file at a path, unless the program stops. -/
def resolveFile? (r : Resolver) (path : Path) : Option (Except ResolveError ResolvedTree) :=
  r.ending? (r.fileSession path)

/-- Resolves a tree, unless the program stops. -/
def resolveRoot? (r : Resolver) (root : Root) : Option (Except ResolveError ResolvedTree) :=
  r.ending? (r.rootSession root)

end Resolver

/-- The tree of one file, its inclusions left in place. -/
def loadFile (loader : Loader) (path : Path) : Except LoadError Root :=
  match loader.read path with
  | .error e => .error (.io path e)
  | .ok text =>
    match parse .root text with
    | .error e => .error (.text path e)
    | .ok root => .ok { root with path := some path }

end KconfigLang
