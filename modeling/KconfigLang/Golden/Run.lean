import KconfigLang.Golden.Case
import KconfigLang.Grammar.Parse
import KconfigLang.Tree.SExpr

/-!
# Running golden cases

- `Case.run`: the outcome of a case.
- `Summary.record`: counts an outcome.
- `Summary.text`: the counts and the cases that went wrong.
-/

namespace KconfigLang.Golden

/-- The outcome of a case. -/
inductive Outcome where
  | pass
  | fail (expected actual : String)
  | skip (reason : String)
  | error (message : String)
  deriving DecidableEq, Repr, Inhabited

/-- Whether one text occurs in another. -/
def occursIn (part : List Char) : List Char → Bool
  | [] => part.isEmpty
  | c :: cs => part.isPrefixOf (c :: cs) || occursIn part cs

/-- Whether two S-expressions differ in white space only. -/
def sameWords (a b : String) : Bool :=
  Text.words a.toList == Text.words b.toList

/-- Parses the input of a case and compares. -/
def Case.run (c : Case) : Outcome :=
  match c.expected with
  | .skip reason => .skip reason
  | .malformed message => .error message
  | .tree sexpr =>
    match parse .root c.input with
    | .ok root => if sameWords root.sexpr sexpr then .pass else .fail sexpr root.sexpr
    | .error e => .fail sexpr ("error: " ++ e.message)
  | .failure part =>
    match parse .root c.input with
    | .ok root => .fail ("error: " ++ part) root.sexpr
    | .error e =>
      if occursIn part.toList e.message.toList then .pass
      else .fail ("error containing " ++ Text.quoted part) ("error: " ++ e.message)

/-! ## Summaries -/

/-- A case that went wrong. -/
structure Failure where
  /-- The name of the case. -/
  name : String
  /-- The number of its header line. -/
  line : Nat
  /-- How it went wrong. -/
  outcome : Outcome
  deriving DecidableEq, Repr, Inhabited

/-- The outcomes of some cases, counted. -/
structure Summary where
  passed : Nat
  failed : Nat
  skipped : Nat
  errors : Nat
  /-- The cases that failed or could not be run, in order. -/
  failures : List Failure
  deriving DecidableEq, Repr, Inhabited

namespace Summary

/-- The summary of no case. -/
def empty : Summary := ⟨0, 0, 0, 0, []⟩

/-- Counts one more outcome. -/
def record (s : Summary) (name : String) (line : Nat) (outcome : Outcome) : Summary :=
  let failures := s.failures ++ [⟨name, line, outcome⟩]
  match outcome with
  | .pass => { s with passed := s.passed + 1 }
  | .skip _ => { s with skipped := s.skipped + 1 }
  | .fail _ _ => { s with failed := s.failed + 1, failures }
  | .error _ => { s with errors := s.errors + 1, failures }

/-- The number of outcomes. -/
def total (s : Summary) : Nat :=
  s.passed + s.failed + s.skipped + s.errors

/-- Whether no case went wrong. -/
def allPassed (s : Summary) : Bool :=
  s.failed == 0 && s.errors == 0

/-- The lines of a failure. -/
def failureLines (f : Failure) : List String :=
  ["", "  " ++ f.name ++ " (line " ++ toString f.line ++ ")"] ++
    match f.outcome with
    | .fail expected actual => ["    expected: " ++ expected, "    actual:   " ++ actual]
    | .error message => ["    error: " ++ message]
    | .pass | .skip _ => []

/-- The text of a summary. -/
def text (s : Summary) : String :=
  let rule := String.ofList (List.replicate 60 '═')
  let counts :=
    "  ✓ " ++ toString s.passed ++ " passed  ✗ " ++ toString s.failed ++ " failed  ⊘ "
      ++ toString s.skipped ++ " skipped  ⚠ " ++ toString s.errors ++ " errors"
  let lines :=
    ["", rule, "Test Summary: " ++ toString s.total ++ " total", counts]
      ++ s.failures.flatMap failureLines ++ [rule]
  String.join (lines.map (· ++ "\n"))

end Summary

/-- Runs some cases in order. -/
def runAll (cases : List Case) : Summary :=
  cases.foldl (fun s c => s.record c.name c.line c.run) .empty

end KconfigLang.Golden
