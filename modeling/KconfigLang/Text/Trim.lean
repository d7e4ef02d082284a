import KconfigLang.Text.CharClass

/-!
# Trimming and splitting

White space is the property White_Space throughout.
-/

namespace KconfigLang.Text

/-- Drops white space at the end. -/
def trimEnd (cs : List Char) : List Char :=
  (cs.reverse.dropWhile isWhiteSpace).reverse

/-- Drops white space at both ends. -/
def trim (cs : List Char) : List Char :=
  trimEnd (cs.dropWhile isWhiteSpace)

/-- Whether nothing but white space occurs. -/
def isBlank (cs : List Char) : Bool :=
  cs.all isWhiteSpace

/-- The maximal runs of characters that are not white space. -/
def words (cs : List Char) : List (List Char) :=
  (cs.splitOnP isWhiteSpace).filter (· ≠ [])

/-- The pieces between the occurrences of `sep`; one piece more than there are occurrences. -/
def splitOn (sep : Char) (cs : List Char) : List (List Char) :=
  cs.splitOnP (· == sep)

/-- What stands before and after the first `sep`. -/
def splitOnce? (sep : Char) : List Char → Option (List Char × List Char)
  | [] => none
  | c :: cs =>
    if c = sep then some ([], cs) else (splitOnce? sep cs).map fun (before, after) => (c :: before, after)

/-- The length of the longest common start of two texts. -/
def commonLead : List Char → List Char → Nat
  | a :: as, b :: bs => if a = b then commonLead as bs + 1 else 0
  | _, _ => 0

end KconfigLang.Text
