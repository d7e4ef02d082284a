import KconfigLang.Text.Numeral
import KconfigLang.Token.Failure

/-!
# String literals

A string literal stands between double quotes on one line. Inside, two quotes stand for one, and
`["HHHH"]` with 4, 6 or 8 upper-case hexadecimal digits stands for the character with that code point.

- `literalLength?`: where a literal ends, as the longest reading of what follows its opening quote.
- `decode`: the text that a literal stands for.
- `encode`: a literal for a text, with every quote doubled.
-/

namespace KconfigLang.Literal

/-- The digits of a code point group at the start of a text. -/
def group? : List Char → Option (List Char)
  | '[' :: '"' :: cs =>
    let digits := cs.takeWhile Text.isUpperHexDigit
    if digits.length = 4 || digits.length = 6 || digits.length = 8 then
      match cs.drop digits.length with
      | '"' :: ']' :: _ => some digits
      | _ => none
    else none
  | _ => none

/-- The number of characters that a group with the given digits takes. -/
def groupLength (digits : List Char) : Nat :=
  digits.length + 4

/-- The number of characters up to and with the closing quote, the opening quote being read already. Two
quotes are read as one where the literal can still close after them, and a group likewise. -/
def literalLength? : List Char → Option Nat
  | [] => none
  | '"' :: '"' :: cs =>
    match literalLength? cs with
    | some n => some (n + 2)
    | none => some 1
  | '"' :: _ => some 1
  | c :: cs =>
    if c = '\n' then none
    else
      match group? (c :: cs) with
      | some digits =>
        match literalLength? ((c :: cs).drop (groupLength digits)) with
        | some n => some (n + groupLength digits)
        | none => some 2
      | none => (literalLength? cs).map (· + 1)
termination_by cs => cs.length
decreasing_by all_goals simp [groupLength]; try omega

/-- What stands between the quotes of a literal, with quotes and groups read; or the digits of the first
group that names no character. -/
def decodeBody : List Char → Except (List Char) (List Char)
  | [] => .ok []
  | '"' :: '"' :: cs => (decodeBody cs).map ('"' :: ·)
  | c :: cs =>
    match group? (c :: cs) with
    | some digits =>
      match Text.scalar? (Text.digitsValue 16 digits) with
      | some d => (decodeBody ((c :: cs).drop (groupLength digits))).map (d :: ·)
      | none => .error digits
    | none => (decodeBody cs).map (c :: ·)
termination_by cs => cs.length
decreasing_by all_goals simp [groupLength]; try omega

/-- The text that a literal stands for. -/
def decode (raw : String) : Except LexFailure String :=
  match raw.toList with
  | '"' :: cs =>
    if cs.getLast? = some '"' then
      match decodeBody cs.dropLast with
      | .ok value => .ok (String.ofList value)
      | .error digits => .error (.invalidCodePoint (String.ofList digits))
    else .error .unterminatedString
  | _ => .error .unterminatedString

/-- The characters of a text with every quote doubled. -/
def encodeBody : List Char → List Char
  | [] => []
  | c :: cs => if c = '"' then '"' :: '"' :: encodeBody cs else c :: encodeBody cs

/-- A literal that stands for a text; every other character is written as it is. -/
def encode (value : String) : String :=
  String.ofList ('"' :: encodeBody value.toList ++ ['"'])

end KconfigLang.Literal
