import KconfigLang.Grammar.Parse
import KconfigLang.Text.Cells
import KconfigLang.Text.Trim

/-!
# Reports

An error drawn under the text it is about: the message, the line and column where it begins, the first and the
last line of the range at fault, and a label that points at the range.

- `displayLines`: the lines of a text as a terminal shows them.
- `clampRange`: a range moved into the text.
- `report`: a message and a label at a range of a text.
- `SyntaxError.report`: the report of an error in a text.
-/

namespace KconfigLang

/-! ## Lines on a terminal -/

/-- Whether a character ends a line on a terminal. -/
def isLineEnd (c : Char) : Bool :=
  ['\n', '\r', '\x0b', '\x0c', '\u0085', '\u2028', '\u2029'].contains c

/-- The lines of some characters, of which the first is at byte `start`; a line end belongs to its line. -/
def linesFrom (start : Nat) : List Char → List Line
  | [] => []
  | '\r' :: '\n' :: cs => ⟨start, ['\r', '\n']⟩ :: linesFrom (start + 2) cs
  | c :: cs =>
    if isLineEnd c then ⟨start, [c]⟩ :: linesFrom (start + c.utf8Size) cs
    else
      match linesFrom (start + c.utf8Size) cs with
      | [] => [⟨start, [c]⟩]
      | l :: ls => ⟨start, c :: l.chars⟩ :: ls

/-- The lines of a text; the empty text has one. -/
def displayLines (cs : List Char) : List Line :=
  if cs.isEmpty then [⟨0, []⟩] else linesFrom 0 cs

/-- The number of characters that begin in a line before a byte offset. -/
def charsBefore (offset start : Nat) : List Char → Nat
  | [] => 0
  | c :: cs => if start < offset then charsBefore offset (start + c.utf8Size) cs + 1 else 0

/-- A place among the lines of a text, counted from zero. -/
structure LinePlace where
  /-- The number of lines before. -/
  row : Nat
  /-- The line. -/
  line : Line
  /-- The number of characters before, within the line. -/
  column : Nat
  deriving Repr

/-- The place of a byte offset. -/
def linePlace (lines : List Line) (offset : Nat) : LinePlace :=
  let upTo := lines.takeWhile (·.start ≤ offset)
  let line := upTo.getLast?.getD ⟨0, []⟩
  ⟨upTo.length - 1, line, charsBefore offset line.start line.chars⟩

/-! ## Cells of a line -/

/-- The characters of a line without white space at its end. -/
def Line.shown (l : Line) : List Char :=
  Text.trimEnd l.chars

/-- The cells that a character takes in a column; a tab reaches the next multiple of four. -/
def cellsAt (c : Char) (column : Nat) : Nat :=
  if c = '\t' then 4 - column % 4
  else if Text.isWhiteSpace c then 1
  else Text.cells c

/-- What is drawn for a character; white space is blank. -/
def drawnAt (c : Char) (column : Nat) : List Char :=
  if Text.isWhiteSpace c then List.replicate (cellsAt c column) ' ' else [c]

/-- A line as it is drawn. -/
def Line.drawn (l : Line) : String :=
  String.ofList ((l.shown.mapIdx fun column c => drawnAt c column).flatten)

/-- The cells of a column of a line; one behind its last character. -/
def Line.cells (l : Line) (column : Nat) : Nat :=
  match l.shown[column]? with
  | some c => cellsAt c column
  | none => 1

/-- Draws the columns from the first to the one before `count`: each has a mark in its first cell and a filling
in the others. -/
def Line.drawColumns (l : Line) (count : Nat) (mark : Nat → Char × Char) : String :=
  String.ofList <| (List.range count).flatMap fun column =>
    let (first, filling) := mark column
    (first :: List.replicate (l.cells column - 1) filling).take (l.cells column)

/-! ## Layout -/

/-- A text of `n` equal characters. -/
def repeated (n : Nat) (c : Char) : String :=
  String.ofList (List.replicate n c)

/-- A number behind enough blanks to reach `width`. -/
def alignRight (width n : Nat) : String :=
  repeated (width - (toString n).length) ' ' ++ toString n

/-- The rows of a range within one line, from column `first` to the one before `last`. -/
def singleLineRows (margin : Nat) (place : LinePlace) (first last : Nat) (label : String) : List String :=
  let blank := repeated margin ' '
  let middle := (first + last) / 2
  let pointer := place.line.drawColumns (last + 2) fun column =>
    if column = middle then if first ≤ middle && middle < last then ('┬', '─') else ('│', ' ')
    else if first ≤ column && column < last then ('─', '─')
    else (' ', ' ')
  let arm := place.line.drawColumns (last + 2) fun column =>
    if column < middle then (' ', ' ') else if column = middle then ('╰', '─') else ('─', '─')
  [" " ++ alignRight margin (place.row + 1) ++ " │ " ++ place.line.drawn,
    " " ++ blank ++ " │ " ++ pointer,
    " " ++ blank ++ " │ " ++ arm ++ " " ++ label]

/-- The rows of a range over several lines, of which the first and the last are shown. -/
def multiLineRows (margin : Nat) (first last : LinePlace) (label : String) : List String :=
  let blank := repeated margin ' '
  let width := ((List.range (last.line.chars.length + 2)).map last.line.cells).foldl (· + ·) 0
  [" " ++ alignRight margin (first.row + 1) ++ " │ ╭─▶ " ++ first.line.drawn]
    ++ (if first.row + 1 < last.row then [" " ++ blank ++ " ┆ ┆   "] else [])
    ++ [" " ++ alignRight margin (last.row + 1) ++ " │ ├─▶ " ++ last.line.drawn,
      " " ++ blank ++ " │ │   " ++ repeated width ' ',
      " " ++ blank ++ " │ ╰───" ++ repeated width '─' ++ " " ++ label]

/-! ## Reports -/

/-- A byte range moved into a text of `size` bytes; where it is empty the byte behind it is taken, if any. -/
def clampRange (size start stop : Nat) : Nat × Nat :=
  let start := min start size
  let stop := max start (min stop size)
  if start = stop then (start, min (start + 1) size) else (start, stop)

/-- A message and a label at a byte range of a text. -/
def report (text : String) (start stop : Nat) (message label : String) : String :=
  let cs := text.toList
  let lines := displayLines cs
  let (start, stop) := clampRange (Text.byteLength cs) start stop
  let first := linePlace lines start
  let last := linePlace lines (if start = stop then start else stop - 1)
  let lastColumn := charsBefore stop last.line.start last.line.chars
  let margin := (toString (last.row + 1)).length
  let blank := repeated margin ' '
  let rows :=
    if first.row = last.row then singleLineRows margin first first.column lastColumn label
    else multiLineRows margin first last label
  let head :=
    ["Error: " ++ message,
      blank ++ "  ╭─[ <unknown>:" ++ toString (first.row + 1) ++ ":" ++ toString (first.column + 1) ++ " ]",
      blank ++ "  │"]
  String.join ((head ++ rows ++ [repeated (margin + 2) '─' ++ "╯"]).map (· ++ "\n"))

/-- A message and a label at a span of a text. -/
def Span.report (span : Span) (text message label : String) : String :=
  KconfigLang.report text span.start span.stop message label

/-- The report of an error in a text. -/
def SyntaxError.report (e : SyntaxError) (text : String) : String :=
  e.span.report text e.message e.label

end KconfigLang
