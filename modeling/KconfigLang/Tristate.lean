import KconfigLang.Text.Quoted

/-!
# Tristate values

Kconfig's logic has three values in the order `n < m < y`. Conjunction is the smaller and disjunction the
larger of two values; negation sends `n` to `y` and both others to `n`.
-/

namespace KconfigLang

/-- The values no, module and yes. -/
inductive Tristate where
  | no
  | module
  | yes
  deriving DecidableEq, Repr, Inhabited

namespace Tristate

/-- The place of a value in the order `n < m < y`. -/
def rank : Tristate → Nat
  | no => 0
  | module => 1
  | yes => 2

/-- The letter that stands for a value. -/
def text : Tristate → String
  | no => "n"
  | module => "m"
  | yes => "y"

/-- The value that a letter stands for. -/
def ofText? : String → Option Tristate
  | "n" => some no
  | "m" => some module
  | "y" => some yes
  | _ => none

/-- Yes for a true statement and no for a false one. -/
def ofBool : Bool → Tristate
  | true => yes
  | false => no

/-- The smaller of two values. -/
def and (a b : Tristate) : Tristate :=
  if a.rank ≤ b.rank then a else b

/-- The larger of two values. -/
def or (a b : Tristate) : Tristate :=
  if a.rank ≤ b.rank then b else a

/-- Yes for no, and no for both others. -/
def not : Tristate → Tristate
  | no => yes
  | module => no
  | yes => no

/-- Compares two values in the order `n < m < y`. -/
def compare (a b : Tristate) : Ordering :=
  Ord.compare a.rank b.rank

/-- What is said of a text that is no tristate value. -/
def parseFailure (text : String) : String :=
  "not a tristate value: " ++ Text.quoted text

end Tristate

end KconfigLang
