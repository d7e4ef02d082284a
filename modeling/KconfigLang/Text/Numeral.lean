/-!
# Numerals

Digits of base 10 and 16, their value, and the ranges of machine integers that bound what a numeral may
denote.
-/

namespace KconfigLang.Text

/-- Whether a character is a hexadecimal digit of either case. -/
def isHexDigit (c : Char) : Bool :=
  c.isDigit || ('a' ≤ c && c ≤ 'f') || ('A' ≤ c && c ≤ 'F')

/-- Whether a character is a hexadecimal digit with its letters in upper case. -/
def isUpperHexDigit (c : Char) : Bool :=
  c.isDigit || ('A' ≤ c && c ≤ 'F')

/-- The value of a digit; meaningful on hexadecimal digits only. -/
def digitValue (c : Char) : Nat :=
  if c.isDigit then c.toNat - '0'.toNat
  else if 'a' ≤ c then c.toNat - 'a'.toNat + 10
  else c.toNat - 'A'.toNat + 10

/-- The number that a list of digits denotes, the most significant digit first. -/
def digitsValue (base : Nat) (digits : List Char) : Nat :=
  digits.foldl (fun n c => base * n + digitValue c) 0

/-- The lower-case hexadecimal digits of a number, without leading zeros. -/
def hexDigits (n : Nat) : List Char :=
  Nat.toDigits 16 n

/-- A number written as `0x` and its hexadecimal digits. -/
def hexText (n : Nat) : String :=
  "0x" ++ String.ofList (hexDigits n)

/-- The character with a code point. -/
def scalar? (n : Nat) : Option Char :=
  if n < 0xd800 ∨ 0xdfff < n ∧ n < 0x110000 then some (Char.ofNat n) else none

/-- Whether a two's complement word of `bits` bits can hold the integer. -/
def inSignedRange (bits : Nat) (n : Int) : Bool :=
  -Int.pow 2 (bits - 1) ≤ n && n < Int.pow 2 (bits - 1)

/-- Reads an optional sign and one or more digits that `isDigit` accepts. -/
def signedValue? (base : Nat) (isDigit : Char → Bool) : List Char → Option Int
  | '+' :: ds => unsigned ds
  | '-' :: ds => (unsigned ds).map (-·)
  | ds => unsigned ds
where
  /-- Reads one or more digits. -/
  unsigned (ds : List Char) : Option Int :=
    if !ds.isEmpty && ds.all isDigit then some (digitsValue base ds) else none

end KconfigLang.Text
