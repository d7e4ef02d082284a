import KconfigLang.Proofs.Text.Lines
import KconfigLang.Proofs.Text.Position
import Mathlib.Data.List.Induction

/-!
# Line breaks

A text whose lines end in newlines alone, and the same text with carriage returns in front of them.

- `Text.withReturns`: a carriage return in front of every newline.
- `Text.SameLines`: a carriage return in front of some newlines. The second text may be cut inside a line break,
  so what is left of the two texts is related at every place at which a lexeme ends.
- `Text.SameLines.drop`, `Text.SameLines.dropWhile` and `Text.SameLines.behind`: such places.
- `Text.SameLines.eq_withReturns`: what stands before such a place, and so its line, column and byte offset.
-/

namespace KconfigLang.Text

/-- A text with a carriage return in front of every newline. -/
def withReturns (cs : List Char) : List Char :=
  cs.flatMap fun c => if c = '\n' then ['\r', '\n'] else [c]

@[simp] theorem withReturns_nil : withReturns [] = [] := rfl

@[simp] theorem withReturns_newline (cs : List Char) : withReturns ('\n' :: cs) = '\r' :: '\n' :: withReturns cs :=
  rfl

theorem withReturns_cons {c : Char} (h : c ≠ '\n') (cs : List Char) :
    withReturns (c :: cs) = c :: withReturns cs := by
  simp [withReturns, h]

@[simp] theorem withReturns_append (cs ds : List Char) :
    withReturns (cs ++ ds) = withReturns cs ++ withReturns ds :=
  List.flatMap_append

/-- A text without carriage returns, and the same text with one in front of some of its newlines. -/
inductive SameLines : List Char → List Char → Prop
  | nil : SameLines [] []
  | char {c : Char} {cs ds : List Char} (ne_return : c ≠ '\r') (ne_newline : c ≠ '\n') (more : SameLines cs ds) :
      SameLines (c :: cs) (c :: ds)
  | newline {cs ds : List Char} (more : SameLines cs ds) : SameLines ('\n' :: cs) ('\n' :: ds)
  | both {cs ds : List Char} (more : SameLines cs ds) : SameLines ('\n' :: cs) ('\r' :: '\n' :: ds)

theorem sameLines_withReturns {cs : List Char} (h : '\r' ∉ cs) : SameLines cs (withReturns cs) := by
  induction cs with
  | nil => exact .nil
  | cons c cs ih =>
    rw [List.mem_cons, not_or] at h
    by_cases hc : c = '\n'
    · subst hc
      exact .both (ih h.2)
    · rw [withReturns_cons hc]
      exact .char (Ne.symm h.1) hc (ih h.2)

namespace SameLines

variable {cs ds : List Char} {p : Char → Bool}

/-! ## Characters at the start -/

/-- Without its carriage returns the second text is the first. -/
theorem filter (h : SameLines cs ds) : ds.filter (· ≠ '\r') = cs := by
  induction h with
  | nil => rfl
  | char hreturn _ _ ih => rw [List.filter_cons_of_pos (by simpa using hreturn), ih]
  | newline _ ih => rw [List.filter_cons_of_pos (by decide), ih]
  | both _ ih => rw [List.filter_cons_of_neg (by decide), List.filter_cons_of_pos (by decide), ih]

/-- Characters that stop at a line break stop there in both texts. -/
theorem takeWhile_eq (h : SameLines cs ds) (hreturn : p '\r' = false) (hnewline : p '\n' = false) :
    ds.takeWhile p = cs.takeWhile p := by
  induction h with
  | nil => rfl
  | char _ _ _ ih => rw [List.takeWhile_cons, List.takeWhile_cons, ih]
  | newline => rw [List.takeWhile_cons_of_neg (by simp [hnewline]), List.takeWhile_cons_of_neg (by simp [hnewline])]
  | both => rw [List.takeWhile_cons_of_neg (by simp [hreturn]), List.takeWhile_cons_of_neg (by simp [hnewline])]

/-- What is left behind characters that may stop inside a line break. -/
theorem dropWhile (h : SameLines cs ds) (hp : p '\n' = true → p '\r' = true) :
    SameLines (cs.dropWhile p) (ds.dropWhile p) := by
  induction h with
  | nil => exact .nil
  | @char c cs ds hreturn hnewline more ih =>
    rw [List.dropWhile_cons, List.dropWhile_cons]
    split
    · exact ih
    · exact .char hreturn hnewline more
  | @newline cs ds more ih =>
    rw [List.dropWhile_cons, List.dropWhile_cons]
    split
    · exact ih
    · exact .newline more
  | @both cs ds more ih =>
    by_cases hnewline : p '\n' = true
    · rwa [List.dropWhile_cons_of_pos hnewline, List.dropWhile_cons_of_pos (hp hnewline),
        List.dropWhile_cons_of_pos hnewline]
    · rw [List.dropWhile_cons_of_neg hnewline, List.dropWhile_cons]
      split
      · rw [List.dropWhile_cons_of_neg hnewline]
        exact .newline more
      · exact .both more

/-- A piece within a line is the same in both texts. -/
theorem take_eq (h : SameLines cs ds) {n : Nat} (hn : '\n' ∉ cs.take n) : ds.take n = cs.take n := by
  induction n generalizing cs ds with
  | zero => rfl
  | succ n ih =>
    cases h with
    | nil => rfl
    | char _ _ more => rw [List.take_succ_cons, List.take_succ_cons, ih more (List.not_mem_of_not_mem_cons hn)]
    | newline => exact absurd List.mem_cons_self hn
    | both => exact absurd List.mem_cons_self hn

/-- What is left behind a piece within a line. -/
theorem drop (h : SameLines cs ds) {n : Nat} (hn : '\n' ∉ cs.take n) : SameLines (cs.drop n) (ds.drop n) := by
  induction n generalizing cs ds with
  | zero => exact h
  | succ n ih =>
    cases h with
    | nil => exact .nil
    | char _ _ more => exact ih more (List.not_mem_of_not_mem_cons hn)
    | newline => exact absurd List.mem_cons_self hn
    | both => exact absurd List.mem_cons_self hn

/-- Both texts start with the same pieces of a line. -/
theorem prefix_iff (h : SameLines cs ds) {w : List Char} (hreturn : '\r' ∉ w) (hnewline : '\n' ∉ w) :
    w <+: cs ↔ w <+: ds := by
  induction w generalizing cs ds with
  | nil => simp
  | cons d w ih =>
    rw [List.mem_cons, not_or] at hreturn hnewline
    cases h with
    | nil => rfl
    | char _ _ more => rw [List.cons_prefix_cons, List.cons_prefix_cons, ih more hreturn.2 hnewline.2]
    | newline => simp [List.cons_prefix_cons, Ne.symm hnewline.1]
    | both => simp [List.cons_prefix_cons, Ne.symm hnewline.1, Ne.symm hreturn.1]

/-! ## Ends of lines -/

/-- What is left at the ends of the same line. -/
theorem behind {before after before' after' : List Char} (h : SameLines (before ++ after) (before' ++ after'))
    (hafter : AtLineEnd after) (hafter' : AtLineEnd after') (hcount : before'.count '\n' = before.count '\n') :
    SameLines after after' := by
  generalize hcs : before ++ after = cs at h
  generalize hds : before' ++ after' = ds at h
  induction h generalizing before before' with
  | nil =>
    rw [(List.append_eq_nil_iff.mp hcs).2, (List.append_eq_nil_iff.mp hds).2]
    exact .nil
  | @char c cs ds _ hnewline more ih =>
    rcases List.append_eq_cons_iff.mp hcs with ⟨-, rfl⟩ | ⟨before, rfl, rfl⟩
    · exact absurd (hafter c rfl) hnewline
    · rcases List.append_eq_cons_iff.mp hds with ⟨-, rfl⟩ | ⟨before', rfl, rfl⟩
      · exact absurd (hafter' c rfl) hnewline
      · rw [List.count_cons_of_ne hnewline, List.count_cons_of_ne hnewline] at hcount
        exact ih hcount rfl rfl
  | @newline cs ds more ih =>
    rcases List.append_eq_cons_iff.mp hcs with ⟨rfl, rfl⟩ | ⟨before, rfl, rfl⟩ <;>
      rcases List.append_eq_cons_iff.mp hds with ⟨rfl, rfl⟩ | ⟨before', rfl, rfl⟩
    · exact .newline more
    · simp at hcount
    · simp at hcount
    · rw [List.count_cons_self, List.count_cons_self] at hcount
      exact ih (Nat.succ.inj hcount) rfl rfl
  | @both cs ds more ih =>
    rcases List.append_eq_cons_iff.mp hds with ⟨-, rfl⟩ | ⟨before', rfl, hrest⟩
    · exact absurd (hafter' _ rfl) (by decide)
    -- The second text may be cut between the two characters of the break.
    · rw [List.count_cons_of_ne (by decide)] at hcount
      rcases List.append_eq_cons_iff.mp hcs with ⟨rfl, rfl⟩ | ⟨before, rfl, rfl⟩ <;>
        rcases List.append_eq_cons_iff.mp hrest.symm with ⟨rfl, rfl⟩ | ⟨before', rfl, rfl⟩
      · exact .newline more
      · simp at hcount
      · simp at hcount
      · rw [List.count_cons_self, List.count_cons_self] at hcount
        exact ih (Nat.succ.inj hcount) rfl rfl

/-! ## The text before a place -/

/-- Only one end of the second text belongs to an end of the first, unless that starts with a newline. -/
theorem eq_nil_of_append {more : List Char} (h : SameLines cs ds) (h' : SameLines cs (more ++ ds))
    (hhead : cs.head? ≠ some '\n') : more = [] := by
  have hfilter := h'.filter
  rw [List.filter_append, h.filter, List.append_left_eq_self] at hfilter
  cases more with
  | nil => rfl
  | cons c more =>
    obtain rfl : c = '\r' := by simpa using List.filter_eq_nil_iff.mp hfilter c List.mem_cons_self
    rw [List.cons_append] at h'
    generalize more ++ ds = rest at h'
    cases h' with
    | char hreturn => exact absurd rfl hreturn
    | both => exact absurd rfl hhead

/-- What stands before a place that is not inside a line break has a carriage return in front of every newline
if the whole text has. -/
theorem eq_withReturns {before before' : List Char} (h : SameLines cs ds) (hreturn : '\r' ∉ cs)
    (hhead : cs.head? ≠ some '\n') (htext : withReturns (before ++ cs) = before' ++ ds) :
    before' = withReturns before := by
  have hall : SameLines cs (withReturns cs) := sameLines_withReturns hreturn
  rw [withReturns_append] at htext
  rcases List.append_eq_append_iff.mp htext with ⟨more, hbefore, hrest⟩ | ⟨more, hbefore, hrest⟩
  · rw [hrest] at hall
    rw [hbefore, h.eq_nil_of_append hall hhead, List.append_nil]
  · rw [hrest] at h
    rw [hbefore, hall.eq_nil_of_append h hhead, List.append_nil]

end SameLines

/-! ## Positions -/

/-- Carriage returns do not change lines. -/
theorem lineAt_withReturns (cs : List Char) : lineAt (withReturns cs) = lineAt cs := by
  induction cs with
  | nil => rfl
  | cons c cs ih =>
    simp only [lineAt, Nat.succ.injEq] at ih ⊢
    by_cases hc : c = '\n'
    · subst hc
      rw [withReturns_newline, List.count_cons_of_ne (by decide), List.count_cons_self, List.count_cons_self, ih]
    · rw [withReturns_cons hc, List.count_cons_of_ne hc, List.count_cons_of_ne hc, ih]

/-- Behind a line break no carriage return is left in the line. -/
theorem columnAt_withReturns (cs : List Char) : columnAt (withReturns cs) = columnAt cs := by
  induction cs using List.reverseRecOn with
  | nil => rfl
  | append_singleton cs c ih =>
    rw [withReturns_append]
    by_cases hc : c = '\n'
    · subst hc
      rw [columnAt_concat, if_pos rfl]
      show columnAt (withReturns cs ++ ['\r', '\n']) = 1
      rw [← List.singleton_append (l := ['\n']), ← List.append_assoc, columnAt_concat, if_pos rfl]
    · rw [withReturns_cons hc, withReturns_nil, columnAt_concat, columnAt_concat, if_neg hc, if_neg hc, ih]

/-- Every line before a place moves it by a byte. -/
theorem byteLength_withReturns (cs : List Char) :
    byteLength (withReturns cs) + 1 = byteLength cs + lineAt cs := by
  induction cs with
  | nil => rfl
  | cons c cs ih =>
    simp only [lineAt] at ih ⊢
    by_cases hc : c = '\n'
    · subst hc
      rw [withReturns_newline, List.count_cons_self]
      simp only [byteLength_cons]
      have hsize : '\r'.utf8Size = 1 := by decide
      omega
    · rw [withReturns_cons hc, List.count_cons_of_ne hc]
      simp only [byteLength_cons]
      omega

end KconfigLang.Text
