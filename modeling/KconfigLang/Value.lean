import KconfigLang.Text.Numeral
import KconfigLang.Text.Trim
import KconfigLang.Tristate

/-!
# Values

What an expression evaluates to: a tristate or a string. Numbers are strings that keep their spelling.

- `Value.parse`: the value that a text stands for.
- `Value.text`: the spelling of a value.
- `Value.toTristate`: the tristate view of any value.
- `integer?` and `compareText`: strings compare as integers if both are numerals.
-/

namespace KconfigLang

/-- A tristate or a string. -/
inductive Value where
  | tristate (value : Tristate)
  | string (text : String)
  deriving DecidableEq, Repr, Inhabited

namespace Value

/-- The letters `y`, `m` and `n` stand for tristates and every other text for itself. -/
def parse (text : String) : Value :=
  match Tristate.ofText? text with
  | some t => tristate t
  | none => string text

/-- The spelling of a value. -/
def text : Value → String
  | tristate t => t.text
  | string s => s

/-- The tristate that a value is. -/
def tristate? : Value → Option Tristate
  | tristate t => some t
  | string _ => none

/-- The tristate view of a value: a string that spells none is `n`. -/
def toTristate : Value → Tristate
  | tristate t => t
  | string s => (Tristate.ofText? s).getD .no

/-- The name of a value's kind. -/
def kindText : Value → String
  | tristate _ => "tristate"
  | string _ => "string"

end Value

/-! ## The order of strings -/

/-- The integer that a numeral denotes: decimal, or hexadecimal behind `0x` or `0X`, with an optional sign
before the digits and white space around; none if it does not fit into 128 bits. -/
def integer? (s : String) : Option Int :=
  let value := match Text.trim s.toList with
    | '0' :: 'x' :: digits | '0' :: 'X' :: digits => Text.signedValue? 16 Text.isHexDigit digits
    | digits => Text.signedValue? 10 Char.isDigit digits
  value.filter (Text.inSignedRange 128)

/-- Compares two strings, as integers if both are numerals and by their characters otherwise. -/
def compareText (a b : String) : Ordering :=
  match integer? a, integer? b with
  | some m, some n => compare m n
  | _, _ => compare a b

end KconfigLang
