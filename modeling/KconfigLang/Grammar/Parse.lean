import KconfigLang.Grammar.Stmt

/-!
# Parsing

A text is parsed to a tree or to its first error. The first token that cannot be read comes before any other
error, and a conflict of types before a token that does not fit.

- `ParseError.ofFurthest`: the error that the furthest failure tells.
- `enclosing?`: the construct that an error is in.
- `parse` and `parseExpr`: whole files and single expressions.
-/

namespace KconfigLang

/-- What is wrong at a token. -/
inductive ParseCause where
  /-- The token does not fit; what would have, sorted. -/
  | mismatch (expected : List String)
  | typeConflict (conflict : TypeConflict)
  deriving DecidableEq, Repr, Inhabited

/-- A token list that is no file or no expression. -/
structure ParseError where
  /-- The token at fault. -/
  span : Span
  /-- That token; none at the end of the text. -/
  found : Option Token
  /-- What is wrong with it. -/
  cause : ParseCause
  /-- The construct that the error is in. -/
  production : Option Construct
  deriving DecidableEq, Repr, Inhabited

namespace ParseError

/-- Alternatives with commas and an `or` between them. -/
def joinAlternatives : List String → String
  | [] => ""
  | [one] => one
  | items => ", ".intercalate items.dropLast ++ " or " ++ items.getLast?.getD ""

/-- What a message says of the token that was found. -/
def foundText (found : Option Token) : String :=
  match found with
  | some t => "unexpected '" ++ t.text ++ "'"
  | none => "unexpected end of input"

/-- The error in a few words, to stand beside the token. -/
def label (e : ParseError) : String :=
  match e.cause with
  | .typeConflict c => c.text
  | .mismatch _ => foundText e.found

/-- What would have been accepted. -/
def expected (e : ParseError) : List String :=
  match e.cause with
  | .typeConflict _ => []
  | .mismatch items => items

/-- The message of an error, with its position. -/
def message (e : ParseError) : String :=
  let hint := if e.expected.isEmpty then "" else ", expected " ++ joinAlternatives e.expected
  let inside := e.production.elim "" fun c => " in " ++ c.text
  e.span.text ++ ": " ++ e.label ++ hint ++ inside

end ParseError

/-- An error in the text of one file. -/
inductive SyntaxError where
  | lex (error : LexError)
  | parse (error : ParseError)
  deriving DecidableEq, Repr, Inhabited

namespace SyntaxError

/-- The piece of text at fault. -/
def span : SyntaxError → Span
  | lex e => e.span
  | parse e => e.span

/-- The message of an error, with its position. -/
def message : SyntaxError → String
  | lex e => e.message
  | parse e => e.message

/-- The error in a few words. -/
def label : SyntaxError → String
  | lex e => e.cause.text
  | parse e => e.label

end SyntaxError

/-! ## The construct around an error -/

/-- The blocks that are open and the construct that began last. -/
structure Nesting where
  /-- The open blocks, the innermost first. -/
  blocks : List Construct
  /-- The construct of the last statement keyword, or the innermost block after a block has ended. -/
  last : Option Construct
  deriving DecidableEq, Repr, Inhabited

namespace Nesting

/-- Opens a block. -/
def push (n : Nesting) (c : Construct) : Nesting :=
  ⟨c :: n.blocks, some c⟩

/-- Ends the innermost block. -/
def pop (n : Nesting) : Nesting :=
  ⟨n.blocks.tail, n.blocks.tail.head?⟩

/-- The nesting after one more token. -/
def step (n : Nesting) : Token → Nesting
  | .keyword .menu => n.push .menu
  | .keyword .choice => n.push .choice
  | .keyword .ifBlock => n.push .ifBlock
  | .keyword .endmenu | .keyword .endchoice | .keyword .endif => n.pop
  | .keyword .config => { n with last := some .configEntry }
  | .keyword .menuconfig => { n with last := some .menuconfigEntry }
  | .keyword .comment => { n with last := some .comment }
  | .keyword .source | .keyword .rsource | .keyword .osource | .keyword .orsource =>
    { n with last := some .source }
  | .keyword .mainmenu => { n with last := some .mainmenu }
  | _ => n

end Nesting

/-- The construct that an error at a byte offset is in: at the end of the text the innermost open block, if
one is open, and elsewhere the construct that began last. -/
def enclosing? (tokens : List Lexed) (offset : Nat) (atEnd : Bool) : Option Construct :=
  let before := tokens.takeWhile (·.span.start < offset)
  let nesting := before.foldl (fun (n : Nesting) t => n.step t.token) ⟨[], none⟩
  if atEnd then nesting.blocks.head?.or nesting.last else nesting.last

/-! ## Errors from readings -/

/-- The texts of some expectations, sorted and each once. -/
def Expected.texts (items : List Expected) : List String :=
  ((items.map Expected.text).mergeSort (· ≤ ·)).eraseReps

/-- The span of the end of the text. It starts there and ends with the last token. -/
def endSpan (loc : Locator) (tokens : List Lexed) : Span :=
  loc.span loc.size ((tokens.getLast?.map (·.span.stop)).getD loc.size)

namespace ParseError

/-- The error that the furthest failure tells. -/
def ofFurthest (loc : Locator) (tokens : List Lexed) (mark : Furthest) : ParseError :=
  let found := tokens[mark.index]?
  let span := (found.map Lexed.span).getD (endSpan loc tokens)
  { span, found := found.map Lexed.token, cause := .mismatch (Expected.texts mark.expected),
    production := enclosing? tokens span.start found.isNone }

/-- The error that a conflict of types tells. -/
def ofConflict (tokens : List Lexed) (conflict : TypeConflict) : ParseError :=
  let span := conflict.second.span
  let found := tokens.find? (·.span.start == span.start)
  { span, found := found.map Lexed.token, cause := .typeConflict conflict,
    production := enclosing? tokens span.start found.isNone }

end ParseError

/-- What a reader makes of a whole token list. -/
def Reader.parse {α : Type} (p : Reader α) (loc : Locator) (tokens : List Lexed) : Except ParseError α :=
  let r := p ⟨tokens, 0, 0⟩
  let last := (r.taken.map fun t => endOfInput t.after).getD ⟨none, none⟩
  match r.taken, last.taken with
  | some ⟨_, _, conflict :: _⟩, _ => .error (.ofConflict tokens conflict)
  | some ⟨value, _, []⟩, some _ => .ok value
  | _, _ =>
    .error (.ofFurthest loc tokens ((Furthest.merge r.furthest last.furthest).getD ⟨tokens.length, []⟩))

/-- Reads the tokens of a text and what `p` makes of them. -/
def Reader.parseText {α : Type} (p : Reader α) (file : FileId) (text : String) : Except SyntaxError α :=
  let cs := text.toList
  let loc := Locator.ofChars file cs
  match tokenize loc cs with
  | .error e => .error (.lex e)
  | .ok tokens => (p.parse loc tokens).mapError .parse

/-- The tree of a file. -/
def parse (file : FileId) (text : String) : Except SyntaxError Root :=
  (Grammar.file file).parseText file text

/-- The tree of a single expression. -/
def parseExpr (text : String) : Except SyntaxError Expr :=
  Grammar.expression.parseText .root text

end KconfigLang
