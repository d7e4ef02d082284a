/-!
# Byte offsets

Positions in a text are counted in bytes of its UTF-8 form, while the text itself is a list of characters.

- `byteLength`: the number of bytes of some characters.
- `takeBytes?`: the characters before a byte offset, if the offset is a boundary between characters.
-/

namespace KconfigLang.Text

/-- The number of bytes that encode some characters. -/
def byteLength (cs : List Char) : Nat :=
  cs.foldr (fun c n => c.utf8Size + n) 0

@[simp] theorem byteLength_nil : byteLength [] = 0 := rfl

@[simp] theorem byteLength_cons (c : Char) (cs : List Char) :
    byteLength (c :: cs) = c.utf8Size + byteLength cs := rfl

@[simp] theorem byteLength_append (cs ds : List Char) :
    byteLength (cs ++ ds) = byteLength cs + byteLength ds := by
  induction cs with
  | nil => simp
  | cons c cs ih => simp [ih, Nat.add_assoc]

/-- The characters in the first `n` bytes, unless the text ends before or `n` splits a character. -/
def takeBytes? : Nat → List Char → Option (List Char)
  | 0, _ => some []
  | _ + 1, [] => none
  | n + 1, c :: cs =>
    if c.utf8Size ≤ n + 1 then (takeBytes? (n + 1 - c.utf8Size) cs).map (c :: ·) else none

end KconfigLang.Text
