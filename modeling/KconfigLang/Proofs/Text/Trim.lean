import KconfigLang.Text.Trim
import Mathlib.Data.List.DropRight

/-!
# White space around a text

- `exists_trim`: what is trimmed is a text between white space.
- `trim_eq_iff`: a text without white space, found in what surrounds it.
- `trim_concat`: white space at the end does not matter.
- `trim_eq_self`: nothing is trimmed off a text that neither begins nor ends with white space.
- `splitOnce?_append`: a text is split where the separator stands for the first time.
-/

namespace KconfigLang.Text

variable {cs w : List Char}

/-- What is trimmed is a text between white space. -/
theorem exists_trim (cs : List Char) : ∃ before after, cs = before ++ (trim cs ++ after) ∧
    ∀ c ∈ before ++ after, isWhiteSpace c = true := by
  refine ⟨cs.takeWhile isWhiteSpace, (cs.dropWhile isWhiteSpace).rtakeWhile isWhiteSpace, ?_, ?_⟩
  · have hend : trim cs ++ (cs.dropWhile isWhiteSpace).rtakeWhile isWhiteSpace = cs.dropWhile isWhiteSpace :=
      List.rdropWhile_append_rtakeWhile
    rw [hend, List.takeWhile_append_dropWhile]
  · refine List.forall_mem_append.mpr ⟨fun c hc => List.mem_takeWhile_imp hc, fun c hc => ?_⟩
    exact List.mem_takeWhile_imp (List.mem_reverse.mp hc)

theorem dropWhile_of_not_white (hw : ∀ c ∈ w, isWhiteSpace c = false) : w.dropWhile isWhiteSpace = w := by
  cases w with
  | nil => rfl
  | cons c w => exact List.dropWhile_cons_of_neg (by simp [hw c List.mem_cons_self])

/-- A text without white space is what is left of any text in which white space surrounds it. -/
theorem trim_eq_iff (hw : ∀ c ∈ w, isWhiteSpace c = false) : trim cs = w ↔ ∃ before after,
    cs = before ++ (w ++ after) ∧ ∀ c ∈ before ++ after, isWhiteSpace c = true := by
  constructor
  · rintro rfl
    exact exists_trim cs
  · rintro ⟨before, after, rfl, hwhite⟩
    obtain ⟨hbefore, hafter⟩ := List.forall_mem_append.mp hwhite
    have hafter' : ∀ c ∈ after.reverse, isWhiteSpace c = true := fun c hc => hafter c (List.mem_reverse.mp hc)
    have hw' : ∀ c ∈ w.reverse, isWhiteSpace c = false := fun c hc => hw c (List.mem_reverse.mp hc)
    rw [trim, List.dropWhile_append_of_pos hbefore]
    by_cases hne : w = []
    · rw [hne, List.nil_append, List.dropWhile_eq_nil_iff.mpr hafter]
      rfl
    · rw [List.dropWhile_append, dropWhile_of_not_white hw, if_neg (by simp [hne]), trimEnd, List.reverse_append,
        List.dropWhile_append_of_pos hafter', dropWhile_of_not_white hw', List.reverse_reverse]

/-- White space at the end does not matter. -/
theorem trim_concat {c : Char} (h : isWhiteSpace c = true) (cs : List Char) : trim (cs ++ [c]) = trim cs := by
  have hend (ds : List Char) : trimEnd (ds ++ [c]) = trimEnd ds := by
    rw [trimEnd, List.reverse_concat, List.dropWhile_cons_of_pos h, trimEnd]
  rw [trim, trim, List.dropWhile_append]
  split
  · rename_i hempty
    rw [List.isEmpty_iff.mp hempty, List.dropWhile_cons_of_pos h]
    rfl
  · exact hend _

/-- A text that neither begins nor ends with white space is left as it is. -/
theorem trim_eq_self (hhead : ∀ c ∈ cs.head?, isWhiteSpace c = false)
    (hlast : ∀ c ∈ cs.getLast?, isWhiteSpace c = false) : trim cs = cs := by
  have hstart : cs.dropWhile isWhiteSpace = cs := by
    cases cs with
    | nil => rfl
    | cons c cs => exact List.dropWhile_cons_of_neg (by simp [hhead c rfl])
  rw [trim, hstart]
  refine List.rdropWhile_eq_self_iff.mpr fun hne => ?_
  simp [hlast _ (List.getLast?_eq_some_getLast hne)]

theorem splitOnce?_append {sep : Char} {before : List Char} (h : sep ∉ before) (after : List Char) :
    splitOnce? sep (before ++ sep :: after) = some (before, after) := by
  induction before with
  | nil => exact if_pos rfl
  | cons c before ih =>
    rw [List.mem_cons, not_or] at h
    rw [List.cons_append, splitOnce?, if_neg (Ne.symm h.1), ih h.2]
    rfl

end KconfigLang.Text
