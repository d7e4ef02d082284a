import KconfigLang.Span
import KconfigLang.Token.Lexeme

/-!
# The token stream

A cursor moves over a text and yields tokens and failures; a failure does not end the stream.

- `Cursor.startsLine`: whether a token is the first on its logical line, seen from the text before it.
- `Cursor.next?`: the next token or failure and the cursor behind it.
- `Cursor.items`: all that it still yields.
- `tokenize`: the tokens of a text with their spans, or its first failure.
-/

namespace KconfigLang

/-- A token or a failure with its byte range. -/
structure StreamItem where
  /-- The token, or why there is none. -/
  content : Except LexFailure Token
  /-- The first character of the piece. -/
  head : Char
  /-- The byte offset of that character. -/
  start : Nat
  /-- The byte offset after the last character. -/
  stop : Nat
  deriving Repr

/-- A position in a text between two items of its stream. -/
structure Cursor where
  /-- The characters that are still to be read. -/
  rest : List Char
  /-- The byte offset of the first of them. -/
  offset : Nat
  /-- The text since the end of the last token; none before the first token. -/
  gap : Option (List Char)
  deriving DecidableEq, Repr

namespace Cursor

/-- The cursor at the start of a text. -/
def ofChars (cs : List Char) : Cursor :=
  ⟨cs, 0, none⟩

/-- Whether a text holds a newline that no backslash continues. -/
def hasLineEnd (continued : Bool) : List Char → Bool
  | [] => false
  | c :: cs =>
    if c = '\\' then hasLineEnd true cs
    else if c = '\n' then !continued || hasLineEnd false cs
    else if c = '\r' then hasLineEnd continued cs
    else hasLineEnd false cs

/-- Whether the next token would be the first on its logical line. -/
def startsLine (c : Cursor) : Bool :=
  match c.gap with
  | none => true
  | some gap => hasLineEnd false gap

/-- A token as it reads at a cursor: an `if` that is first on its line opens a block. -/
def settle (c : Cursor) : Token → Token
  | .keyword .ifCondition => .keyword (if c.startsLine then .ifBlock else .ifCondition)
  | t => t

/-- The cursor after `1 + extra` more characters, which lengthen the gap. -/
def advance (cur : Cursor) (c : Char) (cs : List Char) (extra : Nat) : Cursor :=
  let taken := c :: cs.take extra
  ⟨cs.drop extra, cur.offset + Text.byteLength taken, cur.gap.map (· ++ taken)⟩

theorem length_rest_advance {cur : Cursor} {c : Char} {cs : List Char} (h : cur.rest = c :: cs)
    (extra : Nat) : (cur.advance c cs extra).rest.length < cur.rest.length := by
  simp only [advance, h, List.length_drop, List.length_cons]
  omega

/-- The next token or failure and the cursor behind it. -/
def next? (cur : Cursor) : Option (StreamItem × Cursor) :=
  match _h : cur.rest with
  | [] => none
  | c :: cs =>
    let lexeme := Lexeme.read c cs
    let after := cur.advance c cs lexeme.extra
    match lexeme.kind with
    | .gap => after.next?
    | .token t =>
      some (⟨.ok (cur.settle t), c, cur.offset, after.offset⟩, { after with gap := some [] })
    | .failure cause => some (⟨.error cause, c, cur.offset, after.offset⟩, after)
termination_by cur.rest.length
decreasing_by exact length_rest_advance _h _

theorem rest_length_of_next? {cur after : Cursor} {item : StreamItem}
    (h : cur.next? = some (item, after)) : after.rest.length < cur.rest.length := by
  fun_induction next? cur with
  | case1 => simp at h
  | case2 cur c cs hrest lexeme next hkind ih =>
    exact Nat.lt_trans (ih h) (length_rest_advance hrest _)
  | case3 cur c cs hrest lexeme next t hkind =>
    simp only [Option.some.injEq, Prod.mk.injEq] at h
    obtain ⟨-, rfl⟩ := h
    exact length_rest_advance hrest _
  | case4 cur c cs hrest lexeme next cause hkind =>
    simp only [Option.some.injEq, Prod.mk.injEq] at h
    obtain ⟨-, rfl⟩ := h
    exact length_rest_advance hrest _

/-- All that a cursor still yields. -/
def items (cur : Cursor) : List StreamItem :=
  match _h : cur.next? with
  | none => []
  | some (item, after) => item :: after.items
termination_by cur.rest.length
decreasing_by exact rest_length_of_next? _h

end Cursor

/-! ## Tokens with positions -/

/-- A token with its span. -/
structure Lexed where
  /-- The token. -/
  token : Token
  /-- Where it stands. -/
  span : Span
  deriving DecidableEq, Repr, Inhabited

/-- A failure to read a token. -/
structure LexError where
  /-- Why there is no token. -/
  cause : LexFailure
  /-- The piece of text that is none. -/
  span : Span
  /-- The first character of that piece, where the failure is about it. -/
  character : Option Char
  deriving DecidableEq, Repr, Inhabited

/-- The message of a failure, with its position. -/
def LexError.message (e : LexError) : String :=
  let found := e.character.elim "" fun c => " " ++ Text.quotedChar c
  e.span.text ++ ": " ++ e.cause.text ++ found

/-- An item with its position in the text of a locator. -/
def StreamItem.locate (loc : Locator) (item : StreamItem) : Except LexError Lexed :=
  let span := loc.span item.start item.stop
  match item.content with
  | .ok token => .ok ⟨token, span⟩
  | .error cause =>
    .error ⟨cause, span, if cause = .unexpectedCharacter then some item.head else none⟩

/-- The tokens of a text with their spans, or its first failure. -/
def tokenize (loc : Locator) (cs : List Char) : Except LexError (List Lexed) :=
  (Cursor.ofChars cs).items.mapM (·.locate loc)

end KconfigLang
