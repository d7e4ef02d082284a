import KconfigLang.Text.Utf8

/-!
# Source positions

Every token, every node of a tree and every error carries a `Span`: the file it is in, its byte range and
the position of its first character.

- `Span.join`: the smallest span that covers two spans of one file.
- `Locator`: a text cut into lines, which turns byte offsets into positions.
- `Locator.position?`: positions as words of 32 bits, which run out in texts of four gigabytes.
-/

namespace KconfigLang

/-- The number of a file within one session; a word of 32 bits. -/
structure FileId where
  /-- The number itself. -/
  index : UInt32
  deriving DecidableEq, Repr, Inhabited

namespace FileId

/-- The number of a file that is read on its own. -/
def root : FileId := ⟨0⟩

/-- The last number that a file can have. -/
def last : FileId := ⟨UInt32.ofNat (UInt32.size - 1)⟩

/-- The text of a file number, for files without a path. -/
def text (f : FileId) : String :=
  "#" ++ toString f.index.toNat

end FileId

/-- A region of one file. -/
structure Span where
  /-- The file that holds the region. -/
  file : FileId
  /-- The byte offset of the first character. -/
  start : Nat
  /-- The byte offset after the last character. -/
  stop : Nat
  /-- The line of the first character, counted from one. -/
  line : Nat
  /-- The column of the first character in characters, counted from one. -/
  column : Nat
  deriving DecidableEq, Repr, Inhabited

namespace Span

/-- The smallest span that covers two spans of one file. -/
def join (s t : Span) : Span :=
  let first := if t.start < s.start then t else s
  { file := s.file, start := first.start, stop := max s.stop t.stop,
    line := first.line, column := first.column }

/-- Whether a span covers no text. -/
def isEmpty (s : Span) : Bool :=
  s.start == s.stop

/-- The position of a span as `line:column`. -/
def text (s : Span) : String :=
  toString s.line ++ ":" ++ toString s.column

end Span

/-! ## Lines and positions -/

/-- One line of a text. -/
structure Line where
  /-- The byte offset of the line's first character. -/
  start : Nat
  /-- The characters of the line, the newline at its end included. -/
  chars : List Char
  deriving DecidableEq, Repr

namespace Line

/-- The lines of a text whose first character is at byte `start`; the last one ends without a newline. -/
def table (start : Nat) : List Char → List Line
  | [] => [⟨start, []⟩]
  | c :: cs =>
    if c = '\n' then ⟨start, ['\n']⟩ :: table (start + 1) cs
    else
      match table (start + c.utf8Size) cs with
      | [] => [⟨start, [c]⟩]
      | l :: ls => ⟨start, c :: l.chars⟩ :: ls

/-- The column at a byte offset: characters before it, or bytes where it splits a character. -/
def column (l : Line) (offset : Nat) : Nat :=
  match Text.takeBytes? (offset - l.start) l.chars with
  | some before => before.length + 1
  | none => offset - l.start + 1

end Line

/-- A text cut into lines, to find the position of a byte offset. -/
structure Locator where
  /-- The file the text belongs to. -/
  file : FileId
  /-- The number of bytes of the text. -/
  size : Nat
  /-- The lines of the text in order. -/
  lines : List Line
  deriving DecidableEq, Repr

namespace Locator

/-- The locator of a text. -/
def ofChars (file : FileId) (cs : List Char) : Locator :=
  ⟨file, Text.byteLength cs, Line.table 0 cs⟩

/-- The line and column of a byte offset, both counted from one; an offset past the end is taken as the end. -/
def position (loc : Locator) (offset : Nat) : Nat × Nat :=
  let offset := min offset loc.size
  let before := loc.lines.takeWhile (·.start ≤ offset)
  (before.length, (before.getLast?.map (·.column offset)).getD 1)

/-- What comes at an index, counted from one in words of 32 bits, to which the index is cut. Nothing comes after the
last word: the program stops there. -/
def ordinal? (index : Nat) : Option UInt32 :=
  let word := UInt32.ofNat index
  if word + 1 = 0 then none else some (word + 1)

/-- The line and column of a byte offset as words, unless the program stops at one of them. -/
def position? (loc : Locator) (offset : Nat) : Option (UInt32 × UInt32) := do
  let (line, column) := loc.position offset
  return (← ordinal? (line - 1), ← ordinal? (column - 1))

/-- The span of a byte range. -/
def span (loc : Locator) (start stop : Nat) : Span :=
  let (line, column) := loc.position start
  { file := loc.file, start, stop, line, column }

end Locator

end KconfigLang
