import KconfigLang.Text.Trim

/-!
# Help blocks

The body of a help block starts on the line after its keyword and ends before the first line that is
indented less than the first line of the body; blank lines do not end it. A tab indents to the next
multiple of eight.

- `HelpBlock.indentation`: the width of the blanks at the start of a line.
- `HelpBlock.read`: the body after a help keyword and the number of characters it takes.
-/

namespace KconfigLang

/-- A help body and its extent. -/
structure HelpBlock where
  /-- The body with its common indentation removed. -/
  body : String
  /-- The number of characters from the end of the keyword to the end of the last body line. -/
  extent : Nat
  deriving DecidableEq, Repr

namespace HelpBlock

/-- The width after one more blank character. -/
def advance (width : Nat) (c : Char) : Nat :=
  if c = '\t' then (width / 8 + 1) * 8 else width + 1

/-- Whether a character indents. -/
def isIndent (c : Char) : Bool :=
  c = ' ' || c = '\t'

/-- The width of the spaces and tabs at the start of a line. -/
def indentation (line : List Char) : Nat :=
  (line.takeWhile isIndent).foldl advance 0

/-- Drops spaces and tabs from the start of a line until `base` columns are passed. -/
def dropIndent (base width : Nat) : List Char → List Char
  | [] => []
  | c :: cs => if width < base && isIndent c then dropIndent base (advance width c) cs else c :: cs

/-- A line of the body as it is kept: blank lines empty, others without the common indentation. -/
def dedent (base : Nat) (line : List Char) : List Char :=
  if Text.isBlank line then [] else Text.trimEnd (dropIndent base 0 line)

/-- Drops the blank lines at the end. -/
def dropBlankEnd (lines : List (List Char)) : List (List Char) :=
  (lines.reverse.dropWhile Text.isBlank).reverse

/-- The lines of a body with the given indentation: those before the first that is indented less, without
the blank lines at their end. -/
def bodyLines (base : Nat) (lines : List (List Char)) : List (List Char) :=
  dropBlankEnd (lines.takeWhile fun line => Text.isBlank line || base ≤ indentation line)

/-- Reads the body that follows a help keyword. The rest of the keyword's line is skipped. -/
def read (rest : List Char) : HelpBlock :=
  let keywordLine := rest.takeWhile (· ≠ '\n')
  if keywordLine.length = rest.length then ⟨"", rest.length⟩
  else
    let lines := Text.splitOn '\n' (rest.drop (keywordLine.length + 1))
    match lines.find? (!Text.isBlank ·) with
    | none => ⟨"", keywordLine.length⟩
    | some first =>
      let base := indentation first
      if base = 0 then ⟨"", keywordLine.length⟩
      else
        let kept := bodyLines base lines
        let text := (kept.dropWhile Text.isBlank).map (dedent base)
        ⟨String.ofList (['\n'].intercalate text),
          keywordLine.length + kept.foldl (fun n line => n + line.length + 1) 0⟩

end HelpBlock

end KconfigLang
