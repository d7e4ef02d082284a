import KconfigLang.Text.Trim

/-!
# Lines of a text

A text cut at its newlines, and put together again.

- `AtLineEnd`: nothing or a newline follows.
- `behindNewlines`: some lines, each behind its newline.
- `splitOn_of_behindNewlines`: a text is cut into the lines that it is made of.
-/

namespace KconfigLang

/-- No piece of a text that is cut at a character holds that character. -/
theorem not_mem_of_mem_splitOn {sep : Char} {cs piece : List Char} (h : piece ∈ cs.splitOn sep) :
    sep ∉ piece := by
  induction cs generalizing piece with
  | nil =>
    obtain rfl : piece = [] := by simpa using h
    exact List.not_mem_nil
  | cons c cs ih =>
    rw [List.splitOn_cons_eq_if_modifyHead] at h
    by_cases hc : c = sep
    · rw [if_pos (by simpa using hc)] at h
      rcases List.mem_cons.mp h with rfl | h
      · exact List.not_mem_nil
      · exact ih h
    · rw [if_neg (by simpa using hc)] at h
      obtain ⟨first, more, hsplit⟩ := List.exists_cons_of_ne_nil (List.splitOn_ne_nil sep cs)
      rw [hsplit] at h ih
      rcases List.mem_cons.mp h with rfl | h
      · exact List.not_mem_cons_of_ne_of_not_mem (Ne.symm hc) (ih List.mem_cons_self)
      · exact ih (List.mem_cons_of_mem first h)

/-- Nothing or a newline follows. -/
def AtLineEnd (rest : List Char) : Prop :=
  ∀ c ∈ rest.head?, c = '\n'

theorem atLineEnd_nil : AtLineEnd [] :=
  fun _ h => absurd h (Option.some_ne_none _).symm

theorem atLineEnd_newline (cs : List Char) : AtLineEnd ('\n' :: cs) :=
  fun _ h => (Option.some.inj h).symm

/-- A line ends behind the characters that are no newline. -/
theorem atLineEnd_dropWhile (cs : List Char) : AtLineEnd (cs.dropWhile (· ≠ '\n')) := by
  intro c hc
  have hnot := List.head?_dropWhile_not (fun c : Char => decide (c ≠ '\n')) cs
  rw [hc] at hnot
  simpa using hnot

theorem drop_length_takeWhile (p : Char → Bool) (cs : List Char) :
    cs.drop (cs.takeWhile p).length = cs.dropWhile p := by
  conv => lhs; arg 2; rw [← List.takeWhile_append_dropWhile (p := p) (l := cs)]
  exact List.drop_left

/-- Some lines, each behind its newline. -/
def behindNewlines (lines : List (List Char)) : List Char :=
  lines.flatMap ('\n' :: ·)

@[simp] theorem behindNewlines_nil : behindNewlines [] = [] := rfl

@[simp] theorem behindNewlines_cons (line : List Char) (lines : List (List Char)) :
    behindNewlines (line :: lines) = '\n' :: line ++ behindNewlines lines := rfl

@[simp] theorem behindNewlines_append (lines more : List (List Char)) :
    behindNewlines (lines ++ more) = behindNewlines lines ++ behindNewlines more :=
  List.flatMap_append

theorem atLineEnd_behindNewlines (lines : List (List Char)) : AtLineEnd (behindNewlines lines) := by
  cases lines with
  | nil => exact atLineEnd_nil
  | cons line lines => exact atLineEnd_newline _

theorem behindNewlines_eq_cons_intercalate (line : List Char) (lines : List (List Char)) :
    behindNewlines (line :: lines) = '\n' :: ['\n'].intercalate (line :: lines) := by
  induction lines generalizing line with
  | nil => simp [List.intercalate]
  | cons next lines ih =>
    rw [behindNewlines_cons, ih next, List.intercalate_cons_cons]
    simp

/-- A text cut at its newlines. -/
theorem behindNewlines_splitOn (cs : List Char) :
    behindNewlines (Text.splitOn '\n' cs) = '\n' :: cs := by
  have hjoin : ['\n'].intercalate (Text.splitOn '\n' cs) = cs := List.intercalate_splitOn '\n'
  obtain ⟨line, lines, hlines⟩ := List.exists_cons_of_ne_nil (List.splitOn_ne_nil '\n' cs)
  rw [show Text.splitOn '\n' cs = line :: lines from hlines] at hjoin ⊢
  rw [behindNewlines_eq_cons_intercalate, hjoin]

/-- A text is cut into the lines that it is made of. -/
theorem splitOn_of_behindNewlines {lines : List (List Char)} {cs : List Char}
    (h : behindNewlines lines = '\n' :: cs) (hlines : ∀ line ∈ lines, '\n' ∉ line) :
    Text.splitOn '\n' cs = lines := by
  obtain ⟨line, more, rfl⟩ : ∃ line more, lines = line :: more := by
    cases lines with
    | nil => exact absurd h (List.cons_ne_nil _ _).symm
    | cons line more => exact ⟨line, more, rfl⟩
  rw [behindNewlines_eq_cons_intercalate] at h
  rw [← (List.cons.inj h).2]
  exact List.splitOn_intercalate '\n' hlines (List.cons_ne_nil _ _)

end KconfigLang
