import KconfigLang.Path
import KconfigLang.Span

/-!
# Source maps

The files of a session by number. Numbers are handed out in order, above every number that was registered
before; they are words of 32 bits. With every file the number behind its own is reckoned, and nothing comes behind
the last number: the program stops there, without a result.

- `SourceMap.add?`: registers a file under a fresh number.
- `SourceMap.insert?`: registers a file under a number that it already has.
- `SourceMap.addWrapping` and `SourceMap.insertWrapping`: the same where zero comes behind the last number.
- `SourceMap.overflowed`: whether that has happened.
- `SourceMap.describe`: a span with the path of its file.
-/

namespace KconfigLang

/-- A file of a session. -/
structure SourceFile where
  /-- Where the file is. -/
  path : Path
  /-- What it holds, if the session read it. -/
  text : Option String
  deriving DecidableEq, Repr, Inhabited

/-- The files of a session by number. -/
structure SourceMap where
  /-- The files in the order of their numbers, each number once. -/
  files : List (FileId × SourceFile)
  /-- The number for the next file. -/
  next : UInt32
  deriving DecidableEq, Repr, Inhabited

namespace SourceMap

/-- The map without files. -/
def empty : SourceMap := ⟨[], 0⟩

/-- Puts a file at its place in the order, instead of one with the same number. -/
def put (id : FileId) (file : SourceFile) : List (FileId × SourceFile) → List (FileId × SourceFile)
  | [] => [(id, file)]
  | (key, old) :: rest =>
    if id = key then (id, file) :: rest
    else if id.index < key.index then (id, file) :: (key, old) :: rest
    else (key, old) :: put id file rest

/-- Registers a file under a number that it already has. Behind the last number comes zero. -/
def insertWrapping (map : SourceMap) (id : FileId) (path : Path) (text : Option String) : SourceMap :=
  ⟨put id ⟨path, text⟩ map.files, max map.next (id.index + 1)⟩

/-- Registers a file under a fresh number, as long as there is one. Behind the last number comes zero. -/
def addWrapping (map : SourceMap) (path : Path) (text : Option String) : FileId × SourceMap :=
  (⟨map.next⟩, map.insertWrapping ⟨map.next⟩ path text)

/-- Registers a file under a number that it already has, unless it is the last one, where the program stops. -/
def insert? (map : SourceMap) (id : FileId) (path : Path) (text : Option String) : Option SourceMap :=
  if id = .last then none else some (map.insertWrapping id path text)

/-- Registers a file under a fresh number, unless that is the last one, where the program stops. -/
def add? (map : SourceMap) (path : Path) (text : Option String) : Option (FileId × SourceMap) :=
  (map.insert? ⟨map.next⟩ path text).map (⟨map.next⟩, ·)

/-- The file with a number. -/
def get? (map : SourceMap) (id : FileId) : Option SourceFile :=
  map.files.lookup id

/-- The path of the file with a number. -/
def path? (map : SourceMap) (id : FileId) : Option Path :=
  (map.get? id).map SourceFile.path

/-- Whether a file is registered under the last number, so that the number behind it was reckoned. -/
def overflowed (map : SourceMap) : Bool :=
  (map.get? .last).isSome

/-- A span as `path:line:column`, with the number of the file if it has no path. -/
def describe (map : SourceMap) (span : Span) : String :=
  (match map.path? span.file with
    | some path => path.text
    | none => span.file.text) ++ ":" ++ span.text

/-- The number of files. -/
def size (map : SourceMap) : Nat :=
  map.files.length

/-- Whether there is no file. -/
def isEmpty (map : SourceMap) : Bool :=
  map.files.isEmpty

end SourceMap

end KconfigLang
