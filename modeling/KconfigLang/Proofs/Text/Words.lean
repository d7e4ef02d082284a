import KconfigLang.Text.Trim

/-!
# Words and spaces

Two texts have the same words if they differ in white space between words only. Where the plain space is the
only white space, that is in the lengths of the runs of spaces.

- `squeeze`: a text with one space for every run of spaces.
- `words_squeeze`: the words stay.
- `words_eq_iff_squeeze_eq`: two texts without spaces at their ends have the same words if they are the same
  when squeezed.
-/

namespace KconfigLang.Text

/-- A text with one space for every run of spaces. -/
def squeeze : List Char → List Char
  | [] => []
  | c :: cs => if c = ' ' ∧ cs.head? = some ' ' then squeeze cs else c :: squeeze cs

/-! ## Squeezed texts -/

theorem squeeze_space_space (cs : List Char) : squeeze (' ' :: ' ' :: cs) = squeeze (' ' :: cs) := by
  rw [squeeze, if_pos ⟨rfl, rfl⟩]

theorem squeeze_space {cs : List Char} (h : cs.head? ≠ some ' ') : squeeze (' ' :: cs) = ' ' :: squeeze cs := by
  rw [squeeze, if_neg fun hc => h hc.2]

theorem squeeze_cons {c : Char} (h : c ≠ ' ') (cs : List Char) : squeeze (c :: cs) = c :: squeeze cs := by
  rw [squeeze, if_neg fun hc => h hc.1]

/-- What holds no space stays as it is. -/
theorem squeeze_append {w : List Char} (h : ' ' ∉ w) (cs : List Char) : squeeze (w ++ cs) = w ++ squeeze cs := by
  induction w with
  | nil => rfl
  | cons c w ih =>
    obtain ⟨hc, hw⟩ := List.ne_and_not_mem_of_not_mem_cons h
    rw [List.cons_append, squeeze_cons (Ne.symm hc), ih hw, List.cons_append]

theorem head?_squeeze (cs : List Char) : (squeeze cs).head? = cs.head? := by
  induction cs with
  | nil => rfl
  | cons c cs ih =>
    by_cases hc : c = ' ' ∧ cs.head? = some ' '
    · rw [squeeze, if_pos hc, ih, hc.2, hc.1, List.head?_cons]
    · rw [squeeze, if_neg hc, List.head?_cons, List.head?_cons]

/-- A text without two adjacent spaces stays as it is. -/
theorem squeeze_eq_self {cs : List Char} (h : ¬ [' ', ' '] <:+: cs) : squeeze cs = cs := by
  induction cs with
  | nil => rfl
  | cons c cs ih =>
    have hmore : ¬ [' ', ' '] <:+: cs := fun hin => h (List.infix_cons hin)
    have hc : ¬ (c = ' ' ∧ cs.head? = some ' ') := by
      rintro ⟨rfl, hhead⟩
      obtain ⟨ds, rfl⟩ := List.head?_eq_some_iff.mp hhead
      exact h ⟨[], ds, rfl⟩
    rw [squeeze, if_neg hc, ih hmore]

/-! ## Words -/

theorem words_cons_of_white {c : Char} (h : isWhiteSpace c = true) (cs : List Char) :
    words (c :: cs) = words cs := by
  simp [words, List.splitOnP_cons_eq_if_modifyHead, h]

theorem words_of_not_white {w : List Char} (hw : ∀ d ∈ w, isWhiteSpace d = false) (hne : w ≠ []) :
    words w = [w] := by
  simp [words, List.splitOnP_eq_singleton hw, hne]

/-- A word goes on to the next white space. -/
theorem words_append {w : List Char} (hw : ∀ d ∈ w, isWhiteSpace d = false) (hne : w ≠ []) {c : Char}
    (hc : isWhiteSpace c = true) (cs : List Char) : words (w ++ c :: cs) = w :: words cs := by
  simp [words, List.splitOnP_append_cons_of_forall_mem hw c hc, hne]

/-- Squeezing a text does not change its words; by induction on the text, the word that it begins in being
longer and longer. -/
theorem words_append_squeeze {w : List Char} (hw : ∀ d ∈ w, isWhiteSpace d = false) (cs : List Char) :
    words (w ++ squeeze cs) = words (w ++ cs) := by
  induction cs generalizing w with
  | nil => rfl
  | cons c cs ih =>
    cases hc : isWhiteSpace c with
    | false =>
      have hspace : c ≠ ' ' := by
        rintro rfl
        exact absurd hc (by decide)
      have hword : ∀ d ∈ w ++ [c], isWhiteSpace d = false :=
        List.forall_mem_append.mpr ⟨hw, List.forall_mem_singleton.mpr hc⟩
      rw [squeeze_cons hspace, List.append_cons, ih hword, ← List.append_cons]
    | true =>
      have hnil := ih (List.forall_mem_nil _)
      rw [List.nil_append, List.nil_append] at hnil
      by_cases hrun : c = ' ' ∧ cs.head? = some ' '
      · obtain ⟨rfl, hhead⟩ := hrun
        obtain ⟨ds, rfl⟩ := List.head?_eq_some_iff.mp hhead
        rw [squeeze_space_space, ih hw]
        by_cases hne : w = []
        · simp only [hne, List.nil_append, words_cons_of_white hc]
        · rw [words_append hw hne hc, words_append hw hne hc, words_cons_of_white hc]
      · rw [squeeze, if_neg hrun]
        by_cases hne : w = []
        · rw [hne, List.nil_append, List.nil_append, words_cons_of_white hc, words_cons_of_white hc, hnil]
        · rw [words_append hw hne hc, words_append hw hne hc, hnil]

/-- Squeezing a text does not change its words. -/
theorem words_squeeze (cs : List Char) : words (squeeze cs) = words cs :=
  words_append_squeeze (List.forall_mem_nil _) cs

/-! ## The text of some words -/

theorem intercalate_cons {w : List Char} {ws : List (List Char)} (h : ws ≠ []) :
    [' '].intercalate (w :: ws) = w ++ ' ' :: [' '].intercalate ws := by
  obtain ⟨v, vs, rfl⟩ := List.exists_cons_of_ne_nil h
  simp [List.intercalate_cons_cons]

/-- A text without spaces at its ends is, squeezed, its words with spaces between them. Again by induction on
the text behind the word that it begins in, which may be empty only if no space follows. -/
theorem append_squeeze_eq_intercalate {w : List Char} (hw : ∀ d ∈ w, isWhiteSpace d = false)
    {cs : List Char} (hwhite : ∀ c ∈ cs, isWhiteSpace c = true → c = ' ') (hlast : cs.getLast? ≠ some ' ')
    (hhead : w ≠ [] ∨ cs.head? ≠ some ' ') :
    w ++ squeeze cs = [' '].intercalate (words (w ++ cs)) := by
  induction cs generalizing w with
  | nil =>
    rw [squeeze, List.append_nil]
    by_cases hne : w = []
    · rw [hne]
      rfl
    · rw [words_of_not_white hw hne]
      simp
  | cons c cs ih =>
    obtain ⟨hc, hcs⟩ := List.forall_mem_cons.mp hwhite
    by_cases hspace : c = ' '
    · subst hspace
      have hne : w ≠ [] := hhead.resolve_right fun hhead => hhead rfl
      cases cs with
      | nil => exact absurd rfl hlast
      | cons d ds =>
        rw [List.getLast?_cons_cons] at hlast
        rw [words_append hw hne (by decide)]
        by_cases hd : d = ' '
        · subst hd
          rw [squeeze_space_space, ih hw hcs hlast (.inl hne), words_append hw hne (by decide),
            words_cons_of_white (by decide)]
        · have hnil := ih (List.forall_mem_nil _) hcs hlast (.inr (by simpa using hd))
          rw [List.nil_append, List.nil_append] at hnil
          have hwords : words (d :: ds) ≠ [] := by
            intro hwords
            have hsome := head?_squeeze (d :: ds)
            simp [hnil, hwords] at hsome
          rw [squeeze_space (by simpa using hd), intercalate_cons hwords, ← hnil]
    · have hword : ∀ d ∈ w ++ [c], isWhiteSpace d = false := by
        refine List.forall_mem_append.mpr ⟨hw, List.forall_mem_singleton.mpr ?_⟩
        exact Bool.eq_false_iff.mpr fun hwhite => hspace (hc hwhite)
      have hlast' : cs.getLast? ≠ some ' ' := by
        cases cs with
        | nil => simp
        | cons d ds => rwa [List.getLast?_cons_cons] at hlast
      rw [squeeze_cons hspace, List.append_cons, ih hword hcs hlast' (.inl (by simp)), ← List.append_cons]

/-- Where the plain space is the only white space and stands at neither end, two texts have the same words if
they differ in the lengths of the runs of spaces. -/
theorem words_eq_iff_squeeze_eq {cs ds : List Char} (hcs : ∀ c ∈ cs, isWhiteSpace c = true → c = ' ')
    (hds : ∀ c ∈ ds, isWhiteSpace c = true → c = ' ') (hhead : cs.head? ≠ some ' ')
    (hhead' : ds.head? ≠ some ' ') (hlast : cs.getLast? ≠ some ' ') (hlast' : ds.getLast? ≠ some ' ') :
    words cs = words ds ↔ squeeze cs = squeeze ds := by
  constructor
  · intro hwords
    have hleft := append_squeeze_eq_intercalate (List.forall_mem_nil _) hcs hlast (.inr hhead)
    have hright := append_squeeze_eq_intercalate (List.forall_mem_nil _) hds hlast' (.inr hhead')
    rw [List.nil_append, List.nil_append] at hleft hright
    rw [hleft, hwords, ← hright]
  · intro hsqueeze
    rw [← words_squeeze cs, hsqueeze, words_squeeze ds]

end KconfigLang.Text
