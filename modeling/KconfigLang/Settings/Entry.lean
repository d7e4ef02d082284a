import KconfigLang.Settings.Token

/-!
# Entries of settings files

A settings file is a list of entries and table headers, one a line.

- `SettingsValue`: what an entry gives a key.
- `SettingsLine`: an entry or a header.
- `settingsLines?`: the lines of a file.
-/

namespace KconfigLang

/-- A string, an integer or a truth value. -/
inductive SettingsScalar where
  | text (value : String)
  | integer (value : Int)
  | bool (value : Bool)
  deriving DecidableEq, Repr, Inhabited

/-- What an entry gives a key. -/
inductive SettingsValue where
  | scalar (value : SettingsScalar)
  /-- A table of scalars between braces. -/
  | table (entries : List (String × SettingsScalar))
  deriving DecidableEq, Repr, Inhabited

/-- A line of a settings file. -/
inductive SettingsLine where
  /-- The table that the entries below belong to. -/
  | header (keys : List String)
  /-- A key, which may lead through tables, and its value. -/
  | entry (keys : List String) (value : SettingsValue)
  deriving DecidableEq, Repr, Inhabited

namespace SettingsLine

/-! ## Words -/

/-- Digits with single underscores between some of them, without the underscores. -/
def digits? (isDigit : Char → Bool) (cs : List Char) : Option (List Char) :=
  let groups := cs.splitOnP (· == '_')
  if groups.all fun g => !g.isEmpty && g.all isDigit then some groups.flatten else none

/-- The number that a decimal numeral without leading zeros denotes. -/
def decimal? (cs : List Char) : Option Nat := do
  let ds ← digits? Char.isDigit cs
  guard (ds = ['0'] || ds.head? ≠ some '0')
  return Text.digitsValue 10 ds

/-- The integer that a word denotes. -/
def integer? : List Char → Option Int
  | '0' :: 'x' :: cs => (digits? Text.isHexDigit cs).map fun ds => (Text.digitsValue 16 ds : Int)
  | '0' :: 'o' :: cs =>
    (digits? (fun c => '0' ≤ c && c ≤ '7') cs).map fun ds => (Text.digitsValue 8 ds : Int)
  | '0' :: 'b' :: cs =>
    (digits? (fun c => c == '0' || c == '1') cs).map fun ds => (Text.digitsValue 2 ds : Int)
  | '+' :: cs => (decimal? cs).map fun n => (n : Int)
  | '-' :: cs => (decimal? cs).map fun n => -(n : Int)
  | cs => (decimal? cs).map fun n => (n : Int)

/-- The scalar that a token stands for. -/
def scalar? : SettingsToken → Option SettingsScalar
  | .text value _ => some (.text (String.ofList value))
  | .word cs =>
    if cs = "true".toList then some (.bool true)
    else if cs = "false".toList then some (.bool false)
    else (integer? cs).map .integer
  | _ => none

/-- The key that a token stands for. -/
def key? : SettingsToken → Option String
  | .text value false => some (String.ofList value)
  | .word cs => if cs.contains '+' then none else some (String.ofList cs)
  | _ => none

/-! ## Lines -/

/-- Keys with dots between them, and what follows. -/
def readKeys? : List SettingsToken → Option (List String × List SettingsToken)
  | t :: .mark '.' :: ts => do
    let key ← key? t
    let (keys, rest) ← readKeys? ts
    return (key :: keys, rest)
  | t :: ts => (key? t).map fun key => ([key], ts)
  | [] => none

/-- The entries of a table up to its closing brace, and what follows. A comma stands between two entries and
may follow the last one. -/
def readTable? : List SettingsToken → Option (List (String × SettingsScalar) × List SettingsToken)
  | .lineEnd :: ts => readTable? ts
  | .mark '\x7d' :: ts => some ([], ts)
  | k :: .mark '=' :: v :: ts => do
    let key ← key? k
    let value ← scalar? v
    match _h : ts.dropWhile (· == .lineEnd) with
    | .mark ',' :: rest => do
      let (entries, rest) ← readTable? rest
      return ((key, value) :: entries, rest)
    | .mark '\x7d' :: rest => return ([(key, value)], rest)
    | _ => none
  | _ => none
termination_by ts => ts.length
decreasing_by
  · simp
  · have := (List.dropWhile_sublist (· == SettingsToken.lineEnd) (l := ts)).length_le
    rw [_h] at this
    simp only [List.length_cons] at this ⊢
    omega

/-- A value and what follows. -/
def readValue? : List SettingsToken → Option (SettingsValue × List SettingsToken)
  | .mark '\x7b' :: ts => (readTable? ts).map fun (entries, rest) => (.table entries, rest)
  | t :: ts => (scalar? t).map fun value => (.scalar value, ts)
  | [] => none

/-- A header or an entry, and what follows. -/
def read? : List SettingsToken → Option (SettingsLine × List SettingsToken)
  | .mark '[' :: ts => do
    let (keys, rest) ← readKeys? ts
    match rest with
    | .mark ']' :: rest => return (.header keys, rest)
    | _ => none
  | ts => do
    let (keys, rest) ← readKeys? ts
    match rest with
    | .mark '=' :: rest =>
      let (value, rest) ← readValue? rest
      return (.entry keys value, rest)
    | _ => none

/-- The headers and entries in some tokens, each of which ends a line. -/
def readAll? (ts : List SettingsToken) : Option (List SettingsLine) :=
  match ts with
  | [] => some []
  | .lineEnd :: rest => readAll? rest
  | t :: more =>
    match read? (t :: more) with
    | some (line, []) => some [line]
    | some (line, .lineEnd :: rest) =>
      if rest.length < (t :: more).length then (readAll? rest).map (line :: ·) else none
    | _ => none
termination_by ts.length
decreasing_by
  · simp only [List.length_cons]
    omega
  · assumption

end SettingsLine

/-- The headers and entries of a settings file. -/
def settingsLines? (text : String) : Option (List SettingsLine) :=
  (settingsTokens? text).bind SettingsLine.readAll?

end KconfigLang
