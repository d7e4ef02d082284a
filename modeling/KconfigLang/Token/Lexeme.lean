import KconfigLang.Text.Trim
import KconfigLang.Token
import KconfigLang.Token.HelpBlock
import KconfigLang.Token.Literal

/-!
# Lexemes

The first lexeme of a text: the longest piece at its start that is a token or is skipped, or else the longest
piece that could still have become a token.

- `Lexeme.read`: the lexeme at the start of a text that is not empty.
-/

namespace KconfigLang

/-- What a lexeme is. -/
inductive LexemeKind where
  /-- White space, a continued line or a comment. -/
  | gap
  | token (token : Token)
  | failure (cause : LexFailure)
  deriving DecidableEq, Repr, Inhabited

/-- A lexeme: what it is and how many characters follow its first one. -/
structure Lexeme where
  /-- What the lexeme is. -/
  kind : LexemeKind
  /-- The number of characters after the first. -/
  extra : Nat
  deriving DecidableEq, Repr, Inhabited

namespace Lexeme

/-- White space within and between lines. -/
def isSpace (c : Char) : Bool :=
  c = ' ' || c = '\t' || c = '\r' || c = '\n' || c = '\x0c'

/-- Characters that may follow the first letter of a word. -/
def isWordChar (c : Char) : Bool :=
  c.isAlphanum || c = '_'

/-- A help keyword of which `extra` characters follow the first; `cs` is what follows that first one. -/
def help (extra : Nat) (cs : List Char) : Lexeme :=
  let block := HelpBlock.read (cs.drop extra)
  ⟨.token (.help block.body), extra + block.extent⟩

/-- A backslash, which continues a line when the line ends after it. -/
def backslash : List Char → Lexeme
  | '\n' :: _ => ⟨.gap, 1⟩
  | '\r' :: '\n' :: _ => ⟨.gap, 2⟩
  | '\r' :: _ => ⟨.failure .unexpectedCharacter, 1⟩
  | _ => ⟨.failure .unexpectedCharacter, 0⟩

/-- A keyword, a tristate letter or a symbol name. -/
def word (c : Char) (cs : List Char) : Lexeme :=
  let more := cs.takeWhile isWordChar
  let text := String.ofList (c :: more)
  if text = "help" then help more.length cs else ⟨.token (.ofWord text), more.length⟩

/-- A decimal number, if a word of 64 bits with a sign can hold it. -/
def decimal (value : Int) (extra : Nat) : Lexeme :=
  if Text.inSignedRange 64 value then ⟨.token (.number value), extra⟩
  else ⟨.failure .invalidNumber, extra⟩

/-- A hexadecimal number, if a word of 64 bits can hold it. -/
def hexadecimal (value extra : Nat) : Lexeme :=
  if value < UInt64.size then ⟨.token (.hexNumber value), extra⟩ else ⟨.failure .invalidNumber, extra⟩

/-- A number that starts with the digit `c`. -/
def number (c : Char) (cs : List Char) : Lexeme :=
  let hexDigits :=
    match c, cs with
    | '0', 'x' :: ds => ds.takeWhile Text.isHexDigit
    | _, _ => []
  if hexDigits.isEmpty then
    let digits := cs.takeWhile Char.isDigit
    decimal (Text.digitsValue 10 (c :: digits)) digits.length
  else hexadecimal (Text.digitsValue 16 hexDigits) (hexDigits.length + 1)

/-- The two spellings of the help keyword with dashes, without their first dash. -/
def dashedHelps : List (List Char) :=
  ["-help--".toList, "--help---".toList]

/-- A negative number or a help keyword with dashes. -/
def dash (cs : List Char) : Lexeme :=
  let digits := cs.takeWhile Char.isDigit
  if !digits.isEmpty then decimal (-(Text.digitsValue 10 digits : Int)) digits.length
  else
    match dashedHelps.find? (·.isPrefixOf cs) with
    | some keyword => help keyword.length cs
    | none => ⟨.failure .unexpectedCharacter,
        (dashedHelps.map (Text.commonLead · cs)).foldl max 0⟩

/-- A string literal, or a quote that runs to the end of its line. -/
def string (cs : List Char) : Lexeme :=
  match Literal.literalLength? cs with
  | none => ⟨.failure .unterminatedString, (cs.takeWhile fun c => c ≠ '"' && c ≠ '\n').length⟩
  | some n =>
    let raw := String.ofList ('"' :: cs.take n)
    match Literal.decode raw with
    | .ok value => ⟨.token (.string value raw), n⟩
    | .error cause => ⟨.failure cause, n⟩

/-- An operator or a parenthesis; of two operators the longer. -/
def mark (c : Char) (cs : List Char) : Lexeme :=
  match c, cs with
  | '!', '=' :: _ => ⟨.token (.mark .notEqual), 1⟩
  | '<', '=' :: _ => ⟨.token (.mark .lessEqual), 1⟩
  | '>', '=' :: _ => ⟨.token (.mark .greaterEqual), 1⟩
  | '&', '&' :: _ => ⟨.token (.mark .and), 1⟩
  | '|', '|' :: _ => ⟨.token (.mark .or), 1⟩
  | '=', _ => ⟨.token (.mark .equal), 0⟩
  | '<', _ => ⟨.token (.mark .less), 0⟩
  | '>', _ => ⟨.token (.mark .greater), 0⟩
  | '!', _ => ⟨.token (.mark .not), 0⟩
  | '(', _ => ⟨.token (.mark .leftParen), 0⟩
  | ')', _ => ⟨.token (.mark .rightParen), 0⟩
  | _, _ => ⟨.failure .unexpectedCharacter, 0⟩

/-- The lexeme at the start of the text `c :: cs`; its first character decides of which sort it is. -/
def read (c : Char) (cs : List Char) : Lexeme :=
  if isSpace c then ⟨.gap, (cs.takeWhile isSpace).length⟩
  else if c = '\\' then backslash cs
  else if c = '#' then ⟨.gap, (cs.takeWhile (· ≠ '\n')).length⟩
  else if c.isAlpha then word c cs
  else if c.isDigit then number c cs
  else if c = '-' then dash cs
  else if c = '"' then string cs
  else mark c cs

end Lexeme

end KconfigLang
