/-!
# Failures to read a token
-/

namespace KconfigLang

/-- Why a piece of text is no token. -/
inductive LexFailure where
  | unexpectedCharacter
  | unterminatedString
  | invalidNumber
  /-- A code point group that names no character; its digits. -/
  | invalidCodePoint (digits : String)
  deriving DecidableEq, Repr, Inhabited

/-- What is said of a piece that is no token. -/
def LexFailure.text : LexFailure → String
  | unexpectedCharacter => "unexpected character"
  | unterminatedString => "unterminated string"
  | invalidNumber => "invalid number"
  | invalidCodePoint digits => "invalid code point [\"" ++ digits ++ "\"]"

end KconfigLang
