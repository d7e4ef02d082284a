import KconfigLang.Proofs.Grammar.ErrorSpan
import KconfigLang.Proofs.Text.Rows

/-!
# The head of a report

A report names a place twice: its message begins with the line and the column of the error, and its head names the row
and the column on a terminal. The first are counted in the text before the error, the others in what a terminal sees of
it; so they are the same where rows end at newlines.

- `Heads`: what a report names in its head.
- `Heads.unique`: it names one place.
- `heads_report`: the place on a terminal.
- `report_heads`: the heads of all reports on errors, and when they agree with the messages.
- `endlessMenu_heads`: behind the last newline of a text they do not.
-/

namespace KconfigLang

/-! ## Heads -/

/-- A report begins with a message and names a line and a column in its head. -/
def Heads (report message : String) (line column : Nat) : Prop :=
  ∃ margin rest, report = "Error: " ++ message ++ "\n" ++ repeated margin ' ' ++ "  ╭─[ <unknown>:" ++ toString line ++
    ":" ++ toString column ++ " ]\n" ++ rest

/-- What stands before the first of some characters is told by the text, and so is what stands behind it. -/
theorem append_cons_inj {c : Char} {us us' vs vs' : List Char} (hus : c ∉ us) (hus' : c ∉ us')
    (h : us ++ c :: vs = us' ++ c :: vs') : us = us' ∧ vs = vs' := by
  induction us generalizing us' with
  | nil =>
    cases us' with
    | nil => exact ⟨rfl, (List.cons.inj h).2⟩
    | cons d us' => exact absurd ((List.cons.inj h).1 ▸ List.mem_cons_self) hus'
  | cons d us ih =>
    rw [List.mem_cons, not_or] at hus
    cases us' with
    | nil => exact absurd (List.cons.inj h).1.symm hus.1
    | cons d' us' =>
      rw [List.mem_cons, not_or] at hus'
      obtain ⟨rfl, hrest⟩ := List.cons.inj h
      obtain ⟨rfl, rfl⟩ := ih hus.2 hus'.2 hrest
      exact ⟨rfl, rfl⟩

theorem not_mem_toString {c : Char} (hc : c.isDigit = false) (n : Nat) : c ∉ (toString n).toList := by
  intro hmem
  rw [show (toString n).toList = Nat.toDigits 10 n from Nat.toList_repr] at hmem
  exact Bool.false_ne_true (hc.symm.trans (Nat.isDigit_of_mem_toDigits (by decide) (by decide) hmem))

theorem toString_injective {m n : Nat} (h : (toString m).toList = (toString n).toList) : m = n := by
  rw [show (toString m).toList = Nat.toDigits 10 m from Nat.toList_repr,
    show (toString n).toList = Nat.toDigits 10 n from Nat.toList_repr] at h
  rw [← Nat.ofDigitChars_ten_toDigits (n := m), h, Nat.ofDigitChars_ten_toDigits]

/-- A report names one place. -/
theorem Heads.unique {report message : String} {line column line' column' : Nat} (h : Heads report message line column)
    (h' : Heads report message line' column') : line = line' ∧ column = column' := by
  obtain ⟨margin, rest, rfl⟩ := h
  obtain ⟨margin', rest', h⟩ := h'
  have hmargin (n : Nat) : '╭' ∉ List.replicate n ' ' ++ [' ', ' '] := by simp
  have hchars (margin line column : Nat) (rest : String) : ("Error: " ++ message ++ "\n" ++ repeated margin ' ' ++
      "  ╭─[ <unknown>:" ++ toString line ++ ":" ++ toString column ++ " ]\n" ++ rest).toList =
      ("Error: " ++ message ++ "\n").toList ++ ((List.replicate margin ' ' ++ [' ', ' ']) ++ '╭' ::
        ("─[ <unknown>:".toList ++ ((toString line).toList ++ ':' :: ((toString column).toList ++ ' ' ::
          ("]\n".toList ++ rest.toList))))) := by
    simp [repeated]
  have hlists := congrArg String.toList h
  rw [hchars, hchars] at hlists
  obtain ⟨-, hplace⟩ := append_cons_inj (hmargin _) (hmargin _) (List.append_cancel_left hlists)
  obtain ⟨hline, hcolumn⟩ := append_cons_inj (not_mem_toString rfl _) (not_mem_toString rfl _)
    (List.append_cancel_left hplace)
  obtain ⟨hcolumn, -⟩ := append_cons_inj (not_mem_toString rfl _) (not_mem_toString rfl _) hcolumn
  exact ⟨toString_injective hline, toString_injective hcolumn⟩

/-! ## Places in heads -/

theorem clampRange_fst (size start stop : Nat) : (clampRange size start stop).1 = min start size := by
  unfold clampRange
  dsimp only
  split <;> rfl

/-- A report names the place of its range on a terminal. -/
theorem heads_report (text : String) (start stop : Nat) (message label : String) :
    Heads (report text start stop message label) message
      ((linePlace (displayLines text.toList) (min start (Text.byteLength text.toList))).row + 1)
      ((linePlace (displayLines text.toList) (min start (Text.byteLength text.toList))).column + 1) := by
  rw [← clampRange_fst _ _ stop]
  refine ⟨?margin, ?rest, ?shape⟩
  case shape =>
    simp only [report, List.cons_append, List.nil_append, List.map_cons, String.join_cons, String.append_assoc]
    rfl

/-- The message of an error begins with its position. -/
theorem SyntaxError.exists_message (e : SyntaxError) : ∃ more, e.message = e.span.text ++ ": " ++ more := by
  cases e with
  | lex e => exact ⟨_, String.append_assoc⟩
  | parse e => exact ⟨_, by rw [message, ParseError.message, String.append_assoc, String.append_assoc]; rfl⟩

/-- **The head of a report names the place of its error on a terminal**: the row and the column that are counted in what
a terminal sees of the text before the error. They are the line and the column with which the message begins exactly if
rows end at the newlines before the error and nowhere else. -/
theorem report_heads {text : String} {e : SyntaxError}
    (h : (∃ id, parse id text = .error e) ∨ parseExpr text = .error e) :
    (∃ more, e.message = toString e.span.line ++ ":" ++ toString e.span.column ++ ": " ++ more) ∧
    ∃ before after, text.toList = before ++ after ∧ e.span.start = Text.byteLength before ∧
      (∀ line column, Heads (e.report text) e.message line column ↔
        line = Text.lineAt (Text.asRows before after) ∧ column = Text.columnAt (Text.asRows before after)) ∧
      (Heads (e.report text) e.message e.span.line e.span.column ↔ Text.RowsAtNewlines before after) := by
  have hlies : e.span.LiesIn text.toList := by
    rcases h with ⟨id, h⟩ | h
    · exact liesIn_of_parse_error h
    · exact liesIn_of_parseExpr_error h
  obtain ⟨before, after, htext, hstart, hline, hcolumn⟩ := hlies.starts
  have hheads : Heads (e.report text) e.message (Text.lineAt (Text.asRows before after))
      (Text.columnAt (Text.asRows before after)) := by
    have hreport := heads_report text e.span.start e.span.stop e.message e.label
    rw [hstart, htext, Text.byteLength_append, Nat.min_eq_left (Nat.le_add_right _ _)] at hreport
    obtain ⟨hrow, hcolumn⟩ := linePlace_append before after
    rw [hrow, hcolumn, ← hstart] at hreport
    exact hreport
  have hiff (line column : Nat) : Heads (e.report text) e.message line column ↔
      line = Text.lineAt (Text.asRows before after) ∧ column = Text.columnAt (Text.asRows before after) :=
    ⟨fun h => h.unique hheads, fun ⟨hl, hc⟩ => hl ▸ hc ▸ hheads⟩
  refine ⟨e.exists_message, before, after, htext, hstart, hiff, ?_⟩
  rw [hiff, hline, hcolumn, ← Text.counts_asRows_iff, eq_comm, @eq_comm _ (Text.columnAt before)]

/-- An entry with a dependency that lacks a keyword. -/
def bareDependency : String :=
  "config A\n\tdepends B\n"

theorem bareDependency_heads : ∃ e, parse .root bareDependency = .error e ∧
    Heads (e.report bareDependency) e.message 2 10 ∧
    Text.RowsAtNewlines "config A\n\tdepends ".toList "B\n".toList := by
  obtain ⟨-, e, -, hparse, hspan⟩ := exists_parse_error .root bareDependency
    (fun _ e => e.span.start = 18 ∧ e.span.line = 2 ∧ e.span.column = 10) (by decide +kernel)
  obtain ⟨hstart, hline, hcolumn⟩ := hspan
  obtain ⟨-, before, after, htext, hbefore, hheads, hagree⟩ := report_heads (.inl ⟨_, hparse⟩)
  obtain rfl : "config A\n\tdepends ".toList = before := by
    have htaken := Text.takeBytes?_append before after
    rw [← htext, ← hbefore, show (SyntaxError.parse e).span.start = 18 from hstart] at htaken
    exact Option.some.inj htaken
  have hparts : bareDependency.toList = "config A\n\tdepends ".toList ++ "B\n".toList := by decide
  obtain rfl : "B\n".toList = after := List.append_cancel_left (hparts.symm.trans htext)
  have hplace : Heads ((SyntaxError.parse e).report bareDependency) (SyntaxError.parse e).message 2 10 :=
    (hheads 2 10).mpr (by decide +kernel)
  refine ⟨_, hparse, hplace, hagree.mp ?_⟩
  rwa [show (SyntaxError.parse e).span.line = 2 from hline, show (SyntaxError.parse e).span.column = 10 from hcolumn]

/-- A menu that is not closed. -/
def endlessMenu : String :=
  "menu \"M\"\n"

/-- Behind the newline at the end of a text no row begins, and an error that is found there has another line and column
in the head of its report than in its message. -/
theorem endlessMenu_heads : ∃ e, parse .root endlessMenu = .error e ∧ e.span.line = 2 ∧ e.span.column = 1 ∧
    Heads (e.report endlessMenu) e.message 1 10 ∧
    ¬ Heads (e.report endlessMenu) e.message e.span.line e.span.column := by
  obtain ⟨-, e, -, hparse, hspan⟩ := exists_parse_error .root endlessMenu
    (fun _ e => e.span.start = 9 ∧ e.span.line = 2 ∧ e.span.column = 1) (by decide +kernel)
  obtain ⟨hstart, hline, hcolumn⟩ := hspan
  have hheads : Heads ((SyntaxError.parse e).report endlessMenu) (SyntaxError.parse e).message 1 10 := by
    have hreport := heads_report endlessMenu e.span.start e.span.stop e.message (SyntaxError.parse e).label
    have hplace : (linePlace (displayLines endlessMenu.toList)
        (min e.span.start (Text.byteLength endlessMenu.toList))).row + 1 = 1 ∧
        (linePlace (displayLines endlessMenu.toList)
          (min e.span.start (Text.byteLength endlessMenu.toList))).column + 1 = 10 := by
      rw [hstart]
      decide +kernel
    rw [hplace.1, hplace.2] at hreport
    exact hreport
  refine ⟨_, hparse, hline, hcolumn, hheads, fun h => ?_⟩
  obtain ⟨hsame, -⟩ := h.unique hheads
  exact absurd (hline.symm.trans hsame) (by decide)

end KconfigLang
