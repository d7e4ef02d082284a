import KconfigLang.Text.Trim

/-!
# Variables in text

A text can refer to variables as `$(NAME)`, `$` with the name in braces, or `$NAME`. It is read once from left
to right, and what a variable stands for is not read again.

- `Piece`: a character or a reference.
- `pieces`: the pieces of a text.
- `expand`: the text with every reference replaced.
-/

namespace KconfigLang.Text

/-- Whether a character can start a name: an ASCII letter or an underscore. -/
def isNameStart (c : Char) : Bool :=
  c.isAlpha || c == '_'

/-- Whether a character can continue a name: also an ASCII digit. -/
def isNameChar (c : Char) : Bool :=
  c.isAlphanum || c == '_'

/-- A piece of a text. -/
inductive Piece where
  /-- A character that stands for itself. -/
  | plain (c : Char)
  /-- A reference that ends with its name. -/
  | bare (name : List Char)
  /-- A reference with its name in parentheses. -/
  | parenthesised (name : List Char)
  /-- A reference with its name in braces. -/
  | braced (name : List Char)
  deriving DecidableEq, Repr, Inhabited

namespace Piece

/-- How a piece is written. -/
def chars : Piece → List Char
  | plain c => [c]
  | bare name => '$' :: name
  | parenthesised name => ['$', '('] ++ name ++ [')']
  | braced name => ['$', '\x7b'] ++ name ++ ['\x7d']

/-- What a piece stands for; a variable without a value stands for nothing. -/
def expansion (lookup : String → Option String) : Piece → List Char
  | plain c => [c]
  | bare name | parenthesised name | braced name =>
    ((lookup (String.ofList name)).getD "").toList

end Piece

/-- The longest name at the start of a text, and the rest. -/
def takeName? : List Char → Option (List Char × List Char)
  | [] => none
  | c :: cs => if isNameStart c then some (c :: cs.takeWhile isNameChar, cs.dropWhile isNameChar) else none

/-- The reference behind a dollar sign, and the rest. -/
def reference? : List Char → Option (Piece × List Char)
  | '(' :: cs =>
    match takeName? cs with
    | some (name, ')' :: rest) => some (.parenthesised name, rest)
    | _ => none
  | '\x7b' :: cs =>
    match takeName? cs with
    | some (name, '\x7d' :: rest) => some (.braced name, rest)
    | _ => none
  | cs => (takeName? cs).map fun (name, rest) => (.bare name, rest)

theorem length_of_takeName? {cs name rest : List Char} (h : takeName? cs = some (name, rest)) :
    rest.length < cs.length := by
  cases cs with
  | nil => simp [takeName?] at h
  | cons c cs =>
    simp only [takeName?] at h
    split at h
    · simp only [Option.some.injEq, Prod.mk.injEq] at h
      obtain ⟨-, rfl⟩ := h
      have := (List.dropWhile_sublist isNameChar (l := cs)).length_le
      simp only [List.length_cons]
      omega
    · simp at h

theorem length_of_reference? {cs : List Char} {piece : Piece} {rest : List Char}
    (h : reference? cs = some (piece, rest)) : rest.length < cs.length := by
  unfold reference? at h
  split at h
  · split at h
    · rename_i hname
      simp only [Option.some.injEq, Prod.mk.injEq] at h
      obtain ⟨-, rfl⟩ := h
      have := length_of_takeName? hname
      simp only [List.length_cons] at this ⊢
      omega
    · simp at h
  · split at h
    · rename_i hname
      simp only [Option.some.injEq, Prod.mk.injEq] at h
      obtain ⟨-, rfl⟩ := h
      have := length_of_takeName? hname
      simp only [List.length_cons] at this ⊢
      omega
    · simp at h
  · simp only [Option.map_eq_some_iff, Prod.mk.injEq, Prod.exists] at h
    obtain ⟨name, rest', hname, -, rfl⟩ := h
    exact length_of_takeName? hname

/-- The pieces of a text from left to right. -/
def pieces : List Char → List Piece
  | [] => []
  | c :: cs =>
    if c = '$' then
      match _h : reference? cs with
      | some (piece, rest) => piece :: pieces rest
      | none => .plain c :: pieces cs
    else .plain c :: pieces cs
termination_by cs => cs.length
decreasing_by
  · have := length_of_reference? _h
    simp only [List.length_cons]
    omega
  all_goals simp

/-- The text with every reference replaced by the value of its variable. -/
def expand (lookup : String → Option String) (s : String) : String :=
  String.ofList ((pieces s.toList).flatMap (Piece.expansion lookup))

end KconfigLang.Text
