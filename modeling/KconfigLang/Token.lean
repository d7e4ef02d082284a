import KconfigLang.Tristate

/-!
# Tokens

The words, marks and literals that Kconfig text consists of.

- `Keyword`: the reserved words, each with its spelling.
- `Mark`: operators and parentheses, each with its spelling.
- `Token.text`: how a token is written, in messages as in source text.
-/

namespace KconfigLang

/-- The reserved words that start statements and properties or name types and options. -/
inductive Keyword where
  | config
  | menuconfig
  | choice
  | endchoice
  | comment
  | menu
  | endmenu
  /-- An `if` within a line, which introduces a condition. -/
  | ifCondition
  /-- An `if` that is first on its logical line, which opens a block. -/
  | ifBlock
  | endif
  | source
  | rsource
  | osource
  | orsource
  | mainmenu
  | depends
  | on
  | prompt
  | default
  | select
  | imply
  | range
  | visible
  | option
  | defconfigList
  | modules
  | env
  | allnoconfigY
  | tristate
  | bool
  | defTristate
  | defBool
  | int
  | hex
  | string
  deriving DecidableEq, Repr, Inhabited

namespace Keyword

/-- How a keyword is written. -/
def text : Keyword → String
  | config => "config"
  | menuconfig => "menuconfig"
  | choice => "choice"
  | endchoice => "endchoice"
  | comment => "comment"
  | menu => "menu"
  | endmenu => "endmenu"
  | ifCondition => "if"
  | ifBlock => "if"
  | endif => "endif"
  | source => "source"
  | rsource => "rsource"
  | osource => "osource"
  | orsource => "orsource"
  | mainmenu => "mainmenu"
  | depends => "depends"
  | on => "on"
  | prompt => "prompt"
  | default => "default"
  | select => "select"
  | imply => "imply"
  | range => "range"
  | visible => "visible"
  | option => "option"
  | defconfigList => "defconfig_list"
  | modules => "modules"
  | env => "env"
  | allnoconfigY => "allnoconfig_y"
  | tristate => "tristate"
  | bool => "bool"
  | defTristate => "def_tristate"
  | defBool => "def_bool"
  | int => "int"
  | hex => "hex"
  | string => "string"

/-- The keywords that a word alone decides; whether an `if` opens a block depends on where it stands. -/
def words : List Keyword :=
  [config, menuconfig, choice, endchoice, comment, menu, endmenu, ifCondition, endif, source, rsource,
   osource, orsource, mainmenu, depends, on, prompt, default, select, imply, range, visible, option,
   defconfigList, modules, env, allnoconfigY, tristate, bool, defTristate, defBool, int, hex, string]

/-- The keyword with a given spelling. -/
def ofText? (word : String) : Option Keyword :=
  words.find? (·.text == word)

end Keyword

/-- Operators and parentheses. -/
inductive Mark where
  | equal
  | notEqual
  | less
  | lessEqual
  | greater
  | greaterEqual
  | not
  | and
  | or
  | leftParen
  | rightParen
  deriving DecidableEq, Repr, Inhabited

/-- How a mark is written. -/
def Mark.text : Mark → String
  | equal => "="
  | notEqual => "!="
  | less => "<"
  | lessEqual => "<="
  | greater => ">"
  | greaterEqual => ">="
  | not => "!"
  | and => "&&"
  | or => "||"
  | leftParen => "("
  | rightParen => ")"

/-- A token of Kconfig text. -/
inductive Token where
  | keyword (word : Keyword)
  | mark (sign : Mark)
  /-- One of `y`, `m` and `n`. -/
  | tristate (value : Tristate)
  /-- A help keyword with the body that follows it. -/
  | help (body : String)
  /-- A decimal number. -/
  | number (value : Int)
  /-- A hexadecimal number. -/
  | hexNumber (value : Nat)
  /-- A string literal: what it stands for and how it is written, quotes included. -/
  | string (value raw : String)
  /-- A symbol name. -/
  | ident (name : String)
  deriving DecidableEq, Repr, Inhabited

namespace Token

/-- How a token is written. A help block shows as its keyword alone. -/
def text : Token → String
  | .keyword k => k.text
  | .mark m => m.text
  | .tristate t => t.text
  | .help _ => "help"
  | .number n => toString n
  | .hexNumber n => Text.hexText n
  | .string _ raw => raw
  | .ident name => name

/-- The token that a word stands for, help keywords apart. -/
def ofWord (word : String) : Token :=
  match Keyword.ofText? word, Tristate.ofText? word with
  | some k, _ => keyword k
  | none, some t => tristate t
  | none, none => ident word

end Token

end KconfigLang
