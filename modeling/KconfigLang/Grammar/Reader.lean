import KconfigLang.Token.Stream
import KconfigLang.Tree.Stmt

/-!
# Readers of token lists

A reader takes nodes from the front of a token list. Beside its result it tells how far its attempts came:
the furthest token at which one of them failed, with what was expected there. That mark also comes from
attempts that were given up, and it is what an error message is made of.

- `Furthest.merge`: joins two marks.
- `Reader.labelled`: what fails at the first token of a construct is reported as the construct.
- `Reader.orElse`, `Reader.optional` and `Reader.many`: attempts that start again where they began.
- `Reader.fix`: readers that contain themselves.
-/

namespace KconfigLang

/-- The constructs that messages name. -/
inductive Construct where
  | mainmenu
  | configEntry
  | menuconfigEntry
  | choice
  | comment
  | menu
  | ifBlock
  | source
  | type
  | prompt
  | default
  | defBool
  | defTristate
  | dependsOn
  | visibleIf
  | select
  | imply
  | range
  | help
  | option
  | expression
  | literal
  | symbol
  | string
  deriving DecidableEq, Repr, Inhabited

/-- The name of a construct. -/
def Construct.text : Construct → String
  | mainmenu => "mainmenu"
  | configEntry => "config entry"
  | menuconfigEntry => "menuconfig entry"
  | choice => "choice"
  | comment => "comment"
  | menu => "menu"
  | ifBlock => "if block"
  | source => "source"
  | type => "type"
  | prompt => "prompt"
  | default => "default"
  | defBool => "def_bool"
  | defTristate => "def_tristate"
  | dependsOn => "depends on"
  | visibleIf => "visible if"
  | select => "select"
  | imply => "imply"
  | range => "range"
  | help => "help"
  | option => "option"
  | expression => "expression"
  | literal => "literal"
  | symbol => "symbol"
  | string => "string"

/-- What could have stood at a token. -/
inductive Expected where
  /-- A certain token. -/
  | token (token : Token)
  /-- One of several tokens that are not listed. -/
  | other
  /-- A construct. -/
  | construct (name : Construct)
  /-- Nothing more. -/
  | endOfInput
  deriving DecidableEq, Repr, Inhabited

/-- What a message says of an expectation. -/
def Expected.text : Expected → String
  | token t => "\x27\x27" ++ t.text ++ "\x27\x27"
  | other => "something else"
  | construct c => c.text
  | endOfInput => "end of input"

/-! ## Marks -/

/-- How far attempts came: a token, by the number of tokens before it, and what was expected there. -/
structure Furthest where
  /-- The number of tokens before the one that was not accepted. -/
  index : Nat
  /-- What would have been accepted, in no order. -/
  expected : List Expected
  deriving DecidableEq, Repr, Inhabited

/-- Of two marks the further; at one token the expectations of both. -/
def Furthest.merge : Option Furthest → Option Furthest → Option Furthest
  | none, m => m
  | m, none => m
  | some m, some n =>
    if m.index < n.index then some n
    else if n.index < m.index then some m
    else some ⟨m.index, m.expected ++ n.expected⟩

/-- Two type declarations in one entry. -/
structure TypeConflict where
  /-- The declaration that comes first. -/
  first : TypeDecl
  /-- The one after it. -/
  second : TypeDecl
  deriving DecidableEq, Repr, Inhabited

/-- What is said of two type declarations. -/
def TypeConflict.text (c : TypeConflict) : String :=
  "duplicate type '" ++ c.second.kind.text ++ "', already declared as " ++ c.first.kind.text

/-! ## Readers -/

/-- A place in a token list. -/
structure Place where
  /-- The tokens that are still to be read. -/
  rest : List Lexed
  /-- The number of tokens read. -/
  index : Nat
  /-- The byte offset at which the last token read ends. -/
  stop : Nat
  deriving DecidableEq, Repr, Inhabited

/-- A node that was read. -/
structure Taken (α : Type) where
  /-- The node. -/
  value : α
  /-- The place behind it. -/
  after : Place
  /-- The conflicts of types inside it, in order. -/
  conflicts : List TypeConflict

/-- The outcome of a reader: a node or none, and how far its attempts came. -/
structure Reading (α : Type) where
  /-- The node, unless the reader failed. -/
  taken : Option (Taken α)
  /-- The furthest failure of an attempt. -/
  furthest : Option Furthest

/-- A reader of nodes of type `α`. -/
def Reader (α : Type) : Type :=
  Place → Reading α

namespace Reader

variable {α β : Type}

/-- Reads nothing. -/
def pure (a : α) : Reader α := fun place =>
  ⟨some ⟨a, place, []⟩, none⟩

/-- Reads one node and then another that depends on it. -/
def bind (p : Reader α) (f : α → Reader β) : Reader β := fun place =>
  let r := p place
  match r.taken with
  | none => ⟨none, r.furthest⟩
  | some t =>
    let s := f t.value t.after
    ⟨s.taken.map fun u => { u with conflicts := t.conflicts ++ u.conflicts },
      Furthest.merge r.furthest s.furthest⟩

instance : Monad Reader where
  pure := Reader.pure
  bind := Reader.bind

/-- Fails at a place where something else was expected. -/
def fail (e : Expected) : Reader α := fun place =>
  ⟨none, some ⟨place.index, [e]⟩⟩

/-- Reads one token from which `f` makes a node; `e` is expected otherwise. -/
def token (e : Expected) (f : Token → Option α) : Reader α := fun place =>
  match place.rest with
  | [] => fail e place
  | t :: rest =>
    match f t.token with
    | none => fail e place
    | some a => ⟨some ⟨a, ⟨rest, place.index + 1, t.span.stop⟩, []⟩, none⟩

/-- Reads one certain token. -/
def just (t : Token) : Reader Unit :=
  token (.token t) fun u => if u = t then some () else none

/-- Reads a certain keyword. -/
def keyword (k : Keyword) : Reader Unit :=
  just (.keyword k)

/-- Reads a certain mark. -/
def mark (m : Mark) : Reader Unit :=
  just (.mark m)

/-- Reads one of several tokens. -/
def oneOf (f : Token → Option α) : Reader α :=
  token .other f

/-- Accepts the end of the tokens only. -/
def endOfInput : Reader Unit := fun place =>
  match place.rest with
  | [] => pure () place
  | _ :: _ => fail .endOfInput place

/-- Reports conflicts of types. -/
def report (conflicts : List TypeConflict) : Reader Unit := fun place =>
  ⟨some ⟨(), place, conflicts⟩, none⟩

/-- Replaces what is expected at the first token of a construct by the construct. -/
def labelled (c : Construct) (p : Reader α) : Reader α := fun place =>
  let r := p place
  { r with furthest := r.furthest.map fun m =>
      if m.index = place.index then ⟨m.index, [.construct c]⟩ else m }

/-- Reads a node and gives it the span of its tokens. -/
def withSpan (p : Reader (Span → α)) : Reader α := fun place =>
  let r := p place
  let start := (place.rest.head?.map Lexed.span).getD default
  { r with taken := r.taken.map fun t => { t with value := t.value { start with stop := t.after.stop } } }

/-- Tries a second reader at the same place if the first fails. -/
def orElse (p q : Reader α) : Reader α := fun place =>
  let r := p place
  match r.taken with
  | some _ => r
  | none =>
    let s := q place
    { s with furthest := Furthest.merge r.furthest s.furthest }

/-- Tries some readers in order. -/
def firstOf : List (Reader α) → Reader α
  | [] => fun _ => ⟨none, none⟩
  | [p] => p
  | p :: ps => p.orElse (firstOf ps)

/-- Reads a node if there is one. -/
def optional (p : Reader α) : Reader (Option α) := fun place =>
  let r := p place
  match r.taken with
  | none => ⟨some ⟨none, place, []⟩, r.furthest⟩
  | some t => ⟨some { t with value := some t.value }, r.furthest⟩

/-- Reads nodes as long as there are some, each of at least one token. -/
def many (p : Reader α) (place : Place) : Reading (List α) :=
  let r := p place
  match r.taken with
  | none => ⟨some ⟨[], place, []⟩, r.furthest⟩
  | some t =>
    if t.after.rest.length < place.rest.length then
      let s := many p t.after
      ⟨s.taken.map fun u => ⟨t.value :: u.value, u.after, t.conflicts ++ u.conflicts⟩,
        Furthest.merge r.furthest s.furthest⟩
    else ⟨some ⟨[], place, []⟩, r.furthest⟩
termination_by place.rest.length

/-- Reads one or more nodes. -/
def many1 (p : Reader α) : Reader (List α) := do
  let first ← p
  let more ← many p
  return first :: more

/-- The reader that `body` makes of itself, where it is used behind the first token only. -/
def fix (body : Reader α → Reader α) (place : Place) : Reading α :=
  body (fun inner =>
    if inner.rest.length < place.rest.length then fix body inner else ⟨none, none⟩) place
termination_by place.rest.length

end Reader

end KconfigLang
