import KconfigLang.Value

/-!
# Environments

Symbol values by name.

- `Env.set` and `Env.lookup`: the value of a name is the one set last.
- `Env.assign`: sets a symbol from a text such as `NAME=VALUE`.
-/

namespace KconfigLang

/-- Symbol values by name; each name occurs once. -/
structure Env where
  /-- The names with their values, in the order in which they were first set. -/
  entries : List (String × Value)
  deriving DecidableEq, Repr, Inhabited

namespace Env

/-- The environment without symbols. -/
def empty : Env := ⟨[]⟩

/-- The value of a name. -/
def lookup (env : Env) (name : String) : Option Value :=
  env.entries.lookup name

/-- Puts a pair in place of the one with the same key, or behind all others. -/
def put (name : String) (value : Value) : List (String × Value) → List (String × Value)
  | [] => [(name, value)]
  | (key, old) :: rest =>
    if key = name then (name, value) :: rest else (key, old) :: put name value rest

/-- Gives a name a value. -/
def set (env : Env) (name : String) (value : Value) : Env :=
  ⟨put name value env.entries⟩

/-- The number of names. -/
def size (env : Env) : Nat :=
  env.entries.length

/-- Whether there is no name. -/
def isEmpty (env : Env) : Bool :=
  env.entries.isEmpty

end Env

/-! ## Assignments -/

/-- Why a text is no assignment. -/
inductive AssignError where
  | noEquals (text : String)
  | noName (text : String)
  deriving DecidableEq, Repr, Inhabited

/-- The message of a failed assignment. -/
def AssignError.message : AssignError → String
  | noEquals text => "expected NAME=VALUE, got " ++ Text.quoted text
  | noName text => "missing symbol name in " ++ Text.quoted text

/-- What stands between a double quote at the start and another at the end. -/
def unquoted? : List Char → Option (List Char)
  | '"' :: rest => if rest.getLast? = some '"' then some rest.dropLast else none
  | _ => none

/-- The value of an assignment's right side: a quoted text is a string, whatever it spells. -/
def assignedValue (cs : List Char) : Value :=
  match unquoted? cs with
  | some inner => .string (String.ofList inner)
  | none => .parse (String.ofList cs)

/-- The name and the value in a text such as `NAME=VALUE`, with white space around both dropped. -/
def readAssignment (text : String) : Except AssignError (String × Value) :=
  match Text.splitOnce? '=' text.toList with
  | none => .error (.noEquals text)
  | some (name, value) =>
    if Text.isBlank name then .error (.noName text)
    else .ok (String.ofList (Text.trim name), assignedValue (Text.trim value))

/-- Sets a symbol from a text such as `NAME=VALUE`. -/
def Env.assign (env : Env) (text : String) : Except AssignError Env :=
  (readAssignment text).map fun (name, value) => env.set name value

end KconfigLang
