import KconfigLang.Text.Quoted
import KconfigLang.Text.Trim

/-!
# Golden cases

A text of golden cases. A case starts at a header line and ends before the next one:

```
# test: name
# expect: ok
---
the text to parse
---
its S-expression
===
```

The second line may be missing, and then `ok` is expected. With `error` the last section is a part of the error
message, and `skip` keeps a case without running it.

- `linesOf`: the lines of a text.
- `Expectation`: what a case expects, or why the case cannot be read.
- `sections?`: the two sections of a case.
- `cases`: the cases of a text.
-/

namespace KconfigLang.Golden

/-! ## Lines -/

/-- The line without a carriage return at its end. -/
def dropReturn (line : List Char) : List Char :=
  if line.getLast? = some '\r' then line.dropLast else line

/-- The lines of a text, each ended by a newline or by a carriage return and a newline; the last one may end
with the text. -/
def linesOf (cs : List Char) : List (List Char) :=
  let pieces := Text.splitOn '\n' cs
  let last := pieces.getLast?.getD []
  pieces.dropLast.map dropReturn ++ (if last.isEmpty then [] else [last])

/-- Lines with newlines between them. -/
def joinLines (lines : List (List Char)) : List Char :=
  ['\n'].intercalate lines

/-- What follows a tag at the start of a line, both without white space around. -/
def tagged? (tag : String) (line : List Char) : Option (List Char) :=
  let line := Text.trim line
  if tag.toList.isPrefixOf line then some (Text.trim (line.drop tag.length)) else none

/-- The name of the case that a line starts. -/
def header? (line : List Char) : Option (List Char) :=
  tagged? "# test:" line

/-! ## Cases -/

/-- What a case expects. -/
inductive Expectation where
  /-- A tree with this S-expression. -/
  | tree (sexpr : String)
  /-- An error with this text in its message. -/
  | failure (part : String)
  /-- Nothing, for a reason. -/
  | skip (reason : String)
  /-- The case itself is wrong. -/
  | malformed (message : String)
  deriving DecidableEq, Repr, Inhabited

/-- A golden case. -/
structure Case where
  /-- The name in the header. -/
  name : String
  /-- The number of the header line, counted from one. -/
  line : Nat
  /-- The text to parse. -/
  input : String
  /-- What is expected of it. -/
  expected : Expectation
  deriving DecidableEq, Repr, Inhabited

/-- The lines before and after the first line that is `mark` between white space. -/
def splitAtMark? (mark : String) : List (List Char) → Option (List (List Char) × List (List Char))
  | [] => none
  | line :: rest =>
    if Text.trim line = mark.toList then some ([], rest)
    else (splitAtMark? mark rest).map fun (before, after) => (line :: before, after)

/-- The two sections of a case. -/
def sections? (body : List (List Char)) : Option (List (List Char) × List (List Char)) := do
  let (_, rest) ← splitAtMark? "---" body
  let (input, rest) ← splitAtMark? "---" rest
  let (expected, _) ← splitAtMark? "===" rest
  return (input, expected)

/-- The first word of a text and what follows it. -/
def splitWord (cs : List Char) : List Char × List Char :=
  (cs.takeWhile (!Text.isWhiteSpace ·), (cs.dropWhile (!Text.isWhiteSpace ·)).drop 1)

/-- The expectation that the second line of a case and its last section state. -/
def Expectation.ofWords (words expected : List Char) : Expectation :=
  match splitWord words with
  | (word, rest) =>
    match String.ofList word with
    | "ok" => .tree (String.ofList expected)
    | "error" => .failure (String.ofList expected)
    | "skip" => .skip (String.ofList (Text.trim rest))
    | other => .malformed ("unknown expectation " ++ Text.quoted other)

/-- The words of the line that says what is expected, and the lines behind it. -/
def splitExpect (body : List (List Char)) : List Char × List (List Char) :=
  match body with
  | [] => ("ok".toList, [])
  | line :: rest =>
    match tagged? "# expect:" line with
    | some words => (words, rest)
    | none => ("ok".toList, body)

/-- The section to parse as a text; its last line ends with a newline. -/
def inputText (lines : List (List Char)) : String :=
  let text := joinLines lines
  String.ofList (if text.isEmpty then [] else text ++ ['\n'])

/-- The case of a header and the lines up to the next header. -/
def caseOf (name : List Char) (line : Nat) (body : List (List Char)) : Case :=
  let (words, rest) := splitExpect body
  match sections? rest with
  | none => ⟨String.ofList name, line, "", .malformed "expected `---` input `---` expected `===`"⟩
  | some (input, expected) =>
    ⟨String.ofList name, line, inputText input, .ofWords words (Text.trim (joinLines expected))⟩

/-- The cases in some lines, of which the first has the number `line`. -/
def casesFrom (line : Nat) : List (List Char) → List Case
  | [] => []
  | l :: rest =>
    match header? l with
    | none => casesFrom (line + 1) rest
    | some name =>
      caseOf name line (rest.takeWhile fun l => (header? l).isNone) :: casesFrom (line + 1) rest

/-- The cases of a text. -/
def cases (text : String) : List Case :=
  casesFrom 1 (linesOf text.toList)

end KconfigLang.Golden
