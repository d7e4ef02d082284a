import KconfigLang.Golden.Case
import KconfigLang.Proofs.Text.Trim
import KconfigLang.Proofs.Token.LineLocal

/-!
# Golden cases are independent

A case is made of its header and the lines up to the next header, wherever its sections end or break off. So the cases
of two texts put together are those of both, if the second one begins with a header.

- `exists_linesOf_append`: the lines of a text that ends with a newline, and of what is put behind it.
- `IsHeader`: a line is a header; `beginCase_linesOf`: a text that begins with one has it as its first line.
- `casesFrom_append`: the cases of some lines and of others behind them that begin with a header.
- `cases_independent`: the cases of two texts, and the headers of any text.
-/

namespace KconfigLang.Golden

/-! ## Lines -/

theorem length_splitOn (sep : Char) (cs : List Char) : (Text.splitOn sep cs).length = cs.count sep + 1 := by
  show (List.splitOn sep cs).length = _
  induction cs with
  | nil => rfl
  | cons c cs ih =>
    rw [List.splitOn_cons_eq_if_modifyHead]
    by_cases hc : c = sep
    · rw [if_pos (by simpa using hc), List.length_cons, ih, hc, List.count_cons_self]
    · rw [if_neg (by simpa using hc), List.length_modifyHead, ih, List.count_cons_of_ne hc]

/-- The lines of a text that ends with a newline, which are those that end there, and of what is put behind it. -/
theorem exists_linesOf_append {a : List Char} (h : EndsLine a) :
    ∃ lines, lines.length = a.count '\n' ∧ ∀ b, linesOf (a ++ b) = lines ++ linesOf b := by
  obtain ⟨pieces, hpieces⟩ := splitOn_append h
  refine ⟨pieces.map dropReturn, ?_, fun b => ?_⟩
  · have hlength := length_splitOn '\n' (a ++ [])
    rw [hpieces [], List.length_append, List.append_nil] at hlength
    rw [List.length_map]
    exact Nat.succ.inj hlength
  · have hne : Text.splitOn '\n' b ≠ [] := List.splitOn_ne_nil '\n' b
    rw [linesOf, linesOf, hpieces b, List.dropLast_append_of_ne_nil hne, List.getLast?_append_of_ne_nil _ hne,
      List.map_append, List.append_assoc]

/-! ## Headers -/

/-- A line is the header of a case. -/
def IsHeader (line : List Char) : Prop :=
  "# test:".toList <+: Text.trim line

theorem isSome_header?_iff {line : List Char} : (header? line).isSome = true ↔ IsHeader line := by
  rw [IsHeader, ← List.isPrefixOf_iff_prefix, header?, tagged?]
  by_cases h : "# test:".toList.isPrefixOf (Text.trim line) = true
  · simp only [h, if_true, Option.isSome_some]
  · simp only [h, Bool.false_eq_true, if_false, Option.isSome_none]

theorem IsHeader.ne_nil {line : List Char} (h : IsHeader line) : line ≠ [] := by
  rintro rfl
  exact absurd (List.isPrefixOf_iff_prefix.mpr h) (by decide)

theorem trim_dropReturn (line : List Char) : Text.trim (dropReturn line) = Text.trim line := by
  unfold dropReturn
  split
  · rename_i hreturn
    obtain ⟨before, rfl⟩ := List.getLast?_eq_some_iff.mp hreturn
    rw [List.dropLast_concat, Text.trim_concat (by decide)]
  · rfl

/-- Some lines begin with a header. -/
def BeginCase (lines : List (List Char)) : Prop :=
  ∃ line more, lines = line :: more ∧ IsHeader line

/-- A text that begins with a header has it as its first line, maybe without a carriage return. -/
theorem beginCase_linesOf {b : List Char} (h : IsHeader (b.takeWhile (· ≠ '\n'))) : BeginCase (linesOf b) := by
  have hline : ∀ c ∈ b.takeWhile (· ≠ '\n'), c ≠ '\n' := fun c hc => by simpa using List.mem_takeWhile_imp hc
  have hsplit : b.takeWhile (· ≠ '\n') ++ b.dropWhile (· ≠ '\n') = b := List.takeWhile_append_dropWhile
  have hend : AtLineEnd (b.dropWhile (· ≠ '\n')) := atLineEnd_dropWhile b
  generalize b.takeWhile (· ≠ '\n') = line at h hline hsplit
  have hsingle : Text.splitOn '\n' line = [line] :=
    splitOn_of_behindNewlines (by simp) (List.forall_mem_singleton.mpr fun hmem => hline _ hmem rfl)
  cases hrest : b.dropWhile (· ≠ '\n') with
  | nil =>
    rw [hrest, List.append_nil] at hsplit
    refine ⟨line, [], ?_, h⟩
    rw [← hsplit, linesOf, hsingle]
    exact if_neg (by simpa using h.ne_nil)
  | cons c rest =>
    obtain rfl : c = '\n' := hend c (by rw [hrest]; rfl)
    have hpieces : Text.splitOn '\n' b = line :: Text.splitOn '\n' rest := by
      have hcut : Text.splitOn '\n' (line ++ '\n' :: rest) = Text.splitOn '\n' line ++ Text.splitOn '\n' rest :=
        List.splitOnP_append_cons _ _ rfl
      rw [← hsplit, hrest, hcut, hsingle, List.singleton_append]
    have hne : Text.splitOn '\n' rest ≠ [] := List.splitOn_ne_nil '\n' rest
    refine ⟨dropReturn line, linesOf rest, ?_, by rwa [IsHeader, trim_dropReturn]⟩
    rw [linesOf, linesOf, hpieces, List.dropLast_cons_of_ne_nil hne, List.getLast?_cons_of_ne_nil hne, List.map_cons,
      List.cons_append]

/-! ## Cases -/

/-- The lines of a case, which are those before the next header. -/
def ownLines (lines : List (List Char)) : List (List Char) :=
  lines.takeWhile fun l => (header? l).isNone

theorem casesFrom_cons_of_none {l : List Char} (h : header? l = none) (line : Nat) (lines : List (List Char)) :
    casesFrom line (l :: lines) = casesFrom (line + 1) lines := by
  rw [casesFrom, h]

theorem casesFrom_cons_of_some {l name : List Char} (h : header? l = some name) (line : Nat)
    (lines : List (List Char)) :
    casesFrom line (l :: lines) = caseOf name line (ownLines lines) :: casesFrom (line + 1) lines := by
  rw [casesFrom, h]
  rfl

/-- The same case further down in a text. -/
def Case.later (n : Nat) (c : Case) : Case :=
  { c with line := c.line + n }

/-- Where a case stands does not matter for how it is read. -/
theorem caseOf_add (name : List Char) (line n : Nat) (body : List (List Char)) :
    caseOf name (line + n) body = (caseOf name line body).later n := by
  unfold caseOf
  simp only
  split <;> rfl

theorem casesFrom_add (line n : Nat) (lines : List (List Char)) :
    casesFrom (line + n) lines = (casesFrom line lines).map (Case.later n) := by
  induction lines generalizing line with
  | nil => rfl
  | cons l lines ih =>
    have hmore : casesFrom (line + n + 1) lines = (casesFrom (line + 1) lines).map (Case.later n) := by
      rw [Nat.add_right_comm, ih]
    cases h : header? l with
    | none => rw [casesFrom_cons_of_none h, casesFrom_cons_of_none h, hmore]
    | some name => rw [casesFrom_cons_of_some h, casesFrom_cons_of_some h, hmore, List.map_cons, caseOf_add]

/-- A header ends the case before it, whatever that case is like. -/
theorem ownLines_append {more : List (List Char)} (h : BeginCase more) (lines : List (List Char)) :
    ownLines (lines ++ more) = ownLines lines := by
  obtain ⟨l, rest, rfl, hl⟩ := h
  have hsome : (header? l).isSome = true := isSome_header?_iff.mpr hl
  have hstop : (l :: rest).takeWhile (fun l => (header? l).isNone) = [] :=
    List.takeWhile_cons_of_neg (by rw [← Option.not_isSome, hsome]; decide)
  rw [ownLines, List.takeWhile_append, hstop, List.append_nil]
  split
  · rename_i hall
    exact ((List.takeWhile_prefix _).eq_of_length hall).symm
  · rfl

/-- The cases of some lines and of others that begin with a header; by induction on the lines before that header. -/
theorem casesFrom_append {more : List (List Char)} (h : BeginCase more) (line : Nat) (lines : List (List Char)) :
    casesFrom line (lines ++ more) = casesFrom line lines ++ casesFrom (line + lines.length) more := by
  induction lines generalizing line with
  | nil => rfl
  | cons l lines ih =>
    have hmore : casesFrom (line + 1) (lines ++ more) =
        casesFrom (line + 1) lines ++ casesFrom (line + (l :: lines).length) more := by
      rw [ih, List.length_cons, Nat.add_right_comm, Nat.add_assoc]
    rw [List.cons_append]
    cases hl : header? l with
    | none => rw [casesFrom_cons_of_none hl, casesFrom_cons_of_none hl, hmore]
    | some name =>
      rw [casesFrom_cons_of_some hl, casesFrom_cons_of_some hl, hmore, ownLines_append h, List.cons_append]

/-- The name in a header and the number of its line. -/
def headerAt? (l : List Char × Nat) : Option (String × Nat) :=
  (header? l.1).map fun name => (String.ofList name, l.2)

/-- The names in the headers of a text, with the numbers of their lines. -/
def headers (text : String) : List (String × Nat) :=
  ((linesOf text.toList).zipIdx 1).filterMap headerAt?

theorem caseOf_header (name : List Char) (line : Nat) (body : List (List Char)) :
    ((caseOf name line body).name, (caseOf name line body).line) = (String.ofList name, line) := by
  unfold caseOf
  simp only
  split <;> rfl

theorem casesFrom_headers (line : Nat) (lines : List (List Char)) :
    (casesFrom line lines).map (fun c => (c.name, c.line)) = (lines.zipIdx line).filterMap headerAt? := by
  induction lines generalizing line with
  | nil => rfl
  | cons l lines ih =>
    rw [List.zipIdx_cons]
    cases h : header? l with
    | none =>
      have hnone : headerAt? (l, line) = none := by rw [headerAt?, h, Option.map_none]
      rw [casesFrom_cons_of_none h, List.filterMap_cons_none hnone, ih]
    | some name =>
      have hsome : headerAt? (l, line) = some (String.ofList name, line) := by rw [headerAt?, h, Option.map_some]
      rw [casesFrom_cons_of_some h, List.filterMap_cons_some hsome, List.map_cons, caseOf_header, ih]

/-- **Golden cases are independent**: behind a text that is empty or ends with a newline, a text that begins with a
header has the cases that it has on its own, only further down, and the text before it keeps its own cases. Every
header of a text thus starts one case, with its name and at its line, and nothing else does. -/
theorem cases_independent :
    (∀ a b : String, EndsLine a.toList → IsHeader (b.toList.takeWhile (· ≠ '\n')) →
      cases (a ++ b) = cases a ++ (cases b).map (Case.later (a.toList.count '\n'))) ∧
      ∀ text, (cases text).map (fun c => (c.name, c.line)) = headers text := by
  refine ⟨fun a b ha hb => ?_, fun text => casesFrom_headers 1 _⟩
  obtain ⟨lines, hlength, hlines⟩ := exists_linesOf_append ha
  have hself : linesOf a.toList = lines := by
    have hnil := hlines []
    rwa [List.append_nil, show linesOf [] = [] from rfl, List.append_nil] at hnil
  rw [cases, cases, cases, String.toList_append, hlines, hself, casesFrom_append (beginCase_linesOf hb),
    casesFrom_add, hlength]

/-- A case that breaks off in its first section. -/
def brokenOff : String :=
  "# test: one\n# expect: error\n---\nconfig\n"

/-- A case without a line that says what is expected. -/
def withoutExpect : String :=
  "\t# test: two\n---\n---\n(root)\n===\n"

/-- The broken case does not take the next one in. -/
theorem cases_brokenOff : cases (brokenOff ++ withoutExpect) =
    [⟨"one", 1, "", .malformed "expected `---` input `---` expected `===`"⟩, ⟨"two", 5, "", .tree "(root)"⟩] := by
  have hends : EndsLine brokenOff.toList := .inr (by decide)
  have hheader : IsHeader (withoutExpect.toList.takeWhile (· ≠ '\n')) :=
    List.isPrefixOf_iff_prefix.mp (by decide)
  rw [cases_independent.1 brokenOff withoutExpect hends hheader]
  decide +kernel

end KconfigLang.Golden
