import KconfigLang.Text.Numeral
import KconfigLang.Text.Utf8

/-!
# Tokens of settings files

Settings are written in the part of TOML that has strings, integers, booleans and tables; arrays, fractions and
dates are refused, since no setting takes one. Blanks and comments between tokens are skipped.

- `SettingsToken`: words, strings, marks and line ends.
- `settingsTokens?`: the tokens of a text.
-/

namespace KconfigLang

/-- A token of a settings file. -/
inductive SettingsToken where
  /-- Letters, digits, signs and underscores: a bare key, a number or a truth value. -/
  | word (cs : List Char)
  /-- A string; one in triple quotes cannot be a key. -/
  | text (value : List Char) (tripled : Bool)
  /-- One of `.`, `=`, `,`, brackets and braces. -/
  | mark (c : Char)
  | lineEnd
  deriving DecidableEq, Repr, Inhabited

namespace SettingsToken

/-- Whether a character may stand in a string or a comment as it is. -/
def isPlain (c : Char) : Bool :=
  c = '\t' || (' ' ≤ c && c ≠ '\x7f')

/-- Whether a character may stand in a string in triple quotes as it is. -/
def isPlainOrEnd (c : Char) : Bool :=
  isPlain c || c = '\n'

/-- Whether a character can be part of a word. -/
def isWordChar (c : Char) : Bool :=
  c.isAlphanum || ['_', '-', '+'].contains c

/-- Whether a character is a mark. -/
def isMark (c : Char) : Bool :=
  ['.', '=', ',', '[', ']', '\x7b', '\x7d'].contains c

/-- The character that a letter behind a backslash stands for. -/
def escape? : Char → Option Char
  | 'b' => some '\x08'
  | 't' => some '\t'
  | 'n' => some '\n'
  | 'f' => some '\x0c'
  | 'r' => some '\r'
  | 'e' => some '\x1b'
  | '"' => some '"'
  | '\\' => some '\\'
  | _ => none

/-- The number of hexadecimal digits that follow a letter behind a backslash. -/
def escapeDigits? : Char → Option Nat
  | 'x' => some 2
  | 'u' => some 4
  | 'U' => some 8
  | _ => none

/-- What an escape behind a backslash stands for, and the number of characters it takes. -/
def readEscape? : List Char → Option (Char × Nat)
  | [] => none
  | c :: cs =>
    match escapeDigits? c with
    | none => (escape? c).map fun d => (d, 1)
    | some n =>
      let digits := cs.take n
      if digits.length = n && digits.all Text.isHexDigit then
        (Text.scalar? (Text.digitsValue 16 digits)).map fun d => (d, n + 1)
      else none

/-- The rest of a string between double quotes, and what follows it. -/
def readBasic? : List Char → Option (List Char × List Char)
  | [] => none
  | '"' :: cs => some ([], cs)
  | '\\' :: cs => do
    let (c, n) ← readEscape? cs
    let (value, rest) ← readBasic? (cs.drop n)
    return (c :: value, rest)
  | c :: cs => do
    let c ← Option.guard isPlain c
    let (value, rest) ← readBasic? cs
    return (c :: value, rest)
termination_by cs => cs.length
decreasing_by all_goals simp; try omega

/-- The rest of a string between single quotes, and what follows it. -/
def readVerbatim? : List Char → Option (List Char × List Char)
  | [] => none
  | '\'' :: cs => some ([], cs)
  | c :: cs => do
    let c ← Option.guard isPlain c
    let (value, rest) ← readVerbatim? cs
    return (c :: value, rest)

/-- The end of a string in triple quotes of the kind `quote`: up to two quotes that belong to the string, and
what follows. -/
def tripleEnd? (quote : Char) (cs : List Char) : Option (List Char × List Char) :=
  let count := min 5 (cs.takeWhile (· == quote)).length
  if 3 ≤ count then some (List.replicate (count - 3) quote, cs.drop count) else none

/-- Whether a character is a blank or part of a line end. -/
def isBlankOrEnd (c : Char) : Bool :=
  [' ', '\t', '\n', '\r'].contains c

/-- Whether nothing but blanks precedes the next line end. -/
def endsLine (cs : List Char) : Bool :=
  match cs.dropWhile fun c => c == ' ' || c == '\t' with
  | '\n' :: _ | '\r' :: '\n' :: _ => true
  | _ => false

/-- The rest of a string in triple double quotes, and what follows it. A backslash at the end of a line skips
the blanks and line ends behind it. -/
def readTripleBasic? : List Char → Option (List Char × List Char)
  | [] => none
  | '\\' :: cs =>
    if endsLine cs then readTripleBasic? (cs.dropWhile isBlankOrEnd)
    else do
      let (c, n) ← readEscape? cs
      let (value, rest) ← readTripleBasic? (cs.drop n)
      return (c :: value, rest)
  | '\r' :: '\n' :: cs => do
    let (value, rest) ← readTripleBasic? cs
    return ('\r' :: '\n' :: value, rest)
  | c :: cs =>
    match tripleEnd? '"' (c :: cs) with
    | some ending => some ending
    | none => do
      let c ← Option.guard isPlainOrEnd c
      let (value, rest) ← readTripleBasic? cs
      return (c :: value, rest)
termination_by cs => cs.length
decreasing_by
  · have := (List.dropWhile_sublist isBlankOrEnd (l := cs)).length_le
    simp only [List.length_cons]
    omega
  all_goals simp; try omega

/-- The rest of a string in triple single quotes, and what follows it. -/
def readTripleVerbatim? : List Char → Option (List Char × List Char)
  | [] => none
  | '\r' :: '\n' :: cs => do
    let (value, rest) ← readTripleVerbatim? cs
    return ('\r' :: '\n' :: value, rest)
  | c :: cs =>
    match tripleEnd? '\'' (c :: cs) with
    | some ending => some ending
    | none => do
      let c ← Option.guard isPlainOrEnd c
      let (value, rest) ← readTripleVerbatim? cs
      return (c :: value, rest)

/-- A text without the line end that it starts with. -/
def dropLineEnd : List Char → List Char
  | '\n' :: cs | '\r' :: '\n' :: cs => cs
  | cs => cs

/-- The first token of a text and what follows it; blanks and comments give none. -/
def read? : List Char → Option (Option SettingsToken × List Char)
  | [] => none
  | ' ' :: cs | '\t' :: cs => some (none, cs)
  | '\n' :: cs | '\r' :: '\n' :: cs => some (some .lineEnd, cs)
  | '#' :: cs =>
    let rest := cs.dropWhile isPlain
    match rest with
    | [] | '\n' :: _ | '\r' :: '\n' :: _ => some (none, rest)
    | _ => none
  | '"' :: '"' :: '"' :: cs => do
    let (value, rest) ← readTripleBasic? (dropLineEnd cs)
    return (some (.text value true), rest)
  | '\'' :: '\'' :: '\'' :: cs => do
    let (value, rest) ← readTripleVerbatim? (dropLineEnd cs)
    return (some (.text value true), rest)
  | '"' :: cs => do
    let (value, rest) ← readBasic? cs
    return (some (.text value false), rest)
  | '\'' :: cs => do
    let (value, rest) ← readVerbatim? cs
    return (some (.text value false), rest)
  | c :: cs =>
    if isMark c then some (some (.mark c), cs)
    else if isWordChar c then
      some (some (.word (c :: cs.takeWhile isWordChar)), cs.dropWhile isWordChar)
    else none

/-- The tokens of some characters. Each of them has to leave a shorter text. -/
def readAll? (cs : List Char) : Option (List SettingsToken) :=
  if cs.isEmpty then some []
  else
    match read? cs with
    | none => none
    | some (token, rest) =>
      if rest.length < cs.length then (readAll? rest).map (token.toList ++ ·) else none
termination_by cs.length

end SettingsToken

/-- The tokens of a settings file, unless one of them cannot be read; a byte order mark in front is skipped. -/
def settingsTokens? (text : String) : Option (List SettingsToken) :=
  SettingsToken.readAll? <|
    match text.toList with
    | '\ufeff' :: cs => cs
    | cs => cs

end KconfigLang
