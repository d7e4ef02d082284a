import KconfigLang.Files.SourceMap
import KconfigLang.Inclusion.Error
import KconfigLang.Inclusion.Splice

/-!
# Sessions

A session reads the files of a configuration and splices their statements into one another. It knows the files
that are being expanded, outermost last, and never expands one of them again inside itself. Behind the last number
of a file it goes on with zero; `Resolver.ending?` says what the program makes of that.

- `Resolver`: where files come from and the limits of a session.
- `Session`: what a session remembers of the files it has read.
- `Resolver.load`: the tree of a file.
- `Resolver.includeSource`: the statements that replace an inclusion.
- `Resolver.expandBlock`: a block without inclusions.
-/

namespace KconfigLang

/-- The limits of a session. -/
structure Limits where
  /-- The number of files that may be nested. -/
  maxDepth : Nat := 64
  /-- Whether a file is parsed only once. -/
  cache : Bool := true
  /-- The milliseconds that a session may take. -/
  timeLimit : Option Nat := none
  deriving DecidableEq, Repr, Inhabited

/-- What happens around a session, by the number of inclusions whose paths it has expanded, and its clock. -/
structure Surroundings where
  /-- Whether the session has been cancelled. -/
  cancelled : Nat → Bool := fun _ => false
  /-- The milliseconds since the start. -/
  elapsed : Nat → Nat := fun _ => 0
  /-- Whether the clock can show a moment that is some milliseconds behind the start. -/
  shows : Nat → Bool := fun _ => true

/-- All that the outcome of a session depends on, its root file apart. -/
structure Resolver where
  /-- Where files come from. -/
  loader : Loader
  /-- What the path in an inclusion stands for. -/
  expandPath : String → String
  /-- The directory that inclusions start from. -/
  base : Path
  /-- The limits of a session. -/
  limits : Limits := {}
  /-- What happens around a session. -/
  surroundings : Surroundings := {}

/-- What a session remembers. -/
structure Session where
  /-- The files that were read. -/
  sources : SourceMap
  /-- The trees of files, for the next inclusion of the same file. -/
  parsed : List (Path × Root)
  /-- The number of inclusions whose paths were expanded. -/
  expansions : Nat
  deriving Inhabited

/-- The session that has read nothing. -/
def Session.start : Session := ⟨.empty, [], 0⟩

/-- A step of a session; what it remembers outlives an error. -/
abbrev SessionM := ExceptT ResolveError (StateM Session)

namespace Resolver

/-! ## Files -/

/-- The tree of a file, which is read unless it is remembered. -/
def load (r : Resolver) (path : Path) : SessionM Root := do
  match (← get).parsed.lookup path with
  | some root => return root
  | none =>
    match r.loader.read path with
    | .error e => throw (.load (.io path e))
    | .ok text =>
      let (id, sources) := (← get).sources.addWrapping path (some text)
      modify fun s => { s with sources }
      match parse id text with
      | .error e => throw (.load (.text path e))
      | .ok tree =>
        let root := { tree with path := some path }
        if r.limits.cache then
          modify fun s => { s with parsed := (path, root) :: s.parsed }
        return root

/-! ## Inclusions -/

/-- Ends a session that was cancelled or that takes too long. -/
def checkpoint (r : Resolver) : SessionM Unit := do
  let count := (← get).expansions
  if r.surroundings.cancelled count then throw .cancelled
  match r.limits.timeLimit with
  | none => return
  | some limit => if limit ≤ r.surroundings.elapsed count then throw (.timedOut limit)

/-- The path that an inclusion asks for, from the innermost file or from the base directory. -/
def target (r : Resolver) (stack : List Path) (source : Source) : Path :=
  let path : Path := ⟨r.expandPath source.path.value⟩
  if path.isAbsolute then path
  else if source.kind.isRelative then ((stack.head?.bind Path.parent?).getD r.base).join path
  else r.base.join path

/-- The innermost file, or the name of the root if no file is being expanded. -/
def referrer (label : Path) (stack : List Path) : Path :=
  stack.head?.getD label

/-- Refuses a choice without members. -/
def refuseChoice (label : Path) (stack : List Path) (c : Choice) : SessionM (List Stmt) := do
  throw (.emptyChoice (((← get).sources.path? c.span.file).getD (referrer label stack)) c.span)

/-- The file that an inclusion leads to, known by its canonical path; none if it may be missing and is. -/
def locate (r : Resolver) (label : Path) (stack : List Path) (source : Source) :
    SessionM (Option Path) := do
  r.checkpoint
  modify fun s => { s with expansions := s.expansions + 1 }
  match r.loader.canonicalize (r.target stack source) with
  | .ok path =>
    if stack.contains path then
      throw (.cycle (path :: stack).reverse (referrer label stack) source.span)
    return some path
  | .error e =>
    if source.kind.isOptional && e.kind == .notFound then return none
    throw (.noTarget (r.target stack source) (referrer label stack) source.span e)

/-- The statements that replace an inclusion. Another `room` files fit into the `stack` of the files that are
being expanded, innermost first; `label` names the root where no file is. -/
def includeSource (r : Resolver) (label : Path) :
    (room : Nat) → (stack : List Path) → Source → SessionM (List Stmt)
  | 0, stack, source => do
    match ← r.locate label stack source with
    | none => return []
    | some path =>
      throw (.tooDeep r.limits.maxDepth path (referrer label stack) source.span)
  | room + 1, stack, source => do
    match ← r.locate label stack source with
    | none => return []
    | some path =>
      let root ← r.load path
      Stmt.spliceAll (includeSource r label room (path :: stack)) (refuseChoice label (path :: stack))
        root.statements

/-- A block with all its inclusions replaced. -/
def expandBlock (r : Resolver) (label : Path) (stack : List Path) (block : List Stmt) :
    SessionM (List Stmt) :=
  Stmt.spliceAll (r.includeSource label (r.limits.maxDepth - stack.length) stack)
    (refuseChoice label stack) block

end Resolver

end KconfigLang
