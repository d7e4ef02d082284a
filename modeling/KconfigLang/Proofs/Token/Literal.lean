import KconfigLang.Token.Literal
import Mathlib.Data.List.TakeWhile

/-!
# Literals before a space

Where a string literal ends does not depend on what comes behind the next space.

- `Spaced`: nothing or a space, which ends every token before it.
- `group?_eq_some_iff`: how code point groups are written.
- `literalLength?_take_append`: a literal that is moved before a space ends where it did.
-/

namespace KconfigLang

/-- Nothing or a space, which ends every token before it. -/
def Spaced (rest : List Char) : Prop :=
  ∀ c ∈ rest.head?, c = ' '

theorem Spaced.cases {rest : List Char} (h : Spaced rest) : rest = [] ∨ ∃ cs, rest = ' ' :: cs := by
  cases rest with
  | nil => exact .inl rfl
  | cons c cs => exact .inr ⟨cs, by rw [h c rfl]⟩

theorem Spaced.ne_cons {rest : List Char} (h : Spaced rest) {c : Char} (hc : c ≠ ' ')
    (cs : List Char) : rest ≠ c :: cs := by
  rintro rfl
  exact hc (h c rfl)

/-- Characters other than spaces do not reach over a space. -/
theorem Spaced.prefix_of_append_eq {rest : List Char} (h : Spaced rest) {cs ds more : List Char}
    (hcs : ∀ c ∈ cs, c ≠ ' ') (heq : ds ++ rest = cs ++ more) : cs <+: ds := by
  rcases List.append_eq_append_iff.mp heq with ⟨es, rfl, hrest⟩ | ⟨es, rfl, -⟩
  · cases es with
    | nil => simp
    | cons e es => exact absurd hrest (h.ne_cons (hcs e (by simp)) _)
  · exact List.prefix_append cs es

namespace Literal

/-- How the group with the given digits is written. -/
def groupText (digits : List Char) : List Char :=
  '[' :: '"' :: (digits ++ ['"', ']'])

@[simp] theorem length_groupText (digits : List Char) :
    (groupText digits).length = groupLength digits := by
  simp [groupText, groupLength]

/-- A group is 4, 6 or 8 hexadecimal digits in brackets and quotes. -/
theorem group?_eq_some_iff {cs digits : List Char} : group? cs = some digits ↔
    (digits.length = 4 ∨ digits.length = 6 ∨ digits.length = 8) ∧
      (∀ d ∈ digits, Text.isUpperHexDigit d = true) ∧ groupText digits <+: cs := by
  constructor
  · intro h
    unfold group? at h
    split at h
    · rename_i cs
      simp only at h
      split at h
      · rename_i hlen
        split at h
        · rename_i rest hdrop
          cases h
          refine ⟨by simpa [or_assoc] using hlen, fun d hd => List.mem_takeWhile_imp hd, rest, ?_⟩
          have hsplit := List.prefix_iff_eq_append.mp (List.takeWhile_prefix (l := cs) Text.isUpperHexDigit)
          rw [hdrop] at hsplit
          simp [groupText, hsplit]
        · exact absurd h (Option.some_ne_none _).symm
      · exact absurd h (Option.some_ne_none _).symm
    · exact absurd h (Option.some_ne_none _).symm
  · rintro ⟨hlen, hdigits, rest, rfl⟩
    have htake : (digits ++ '"' :: ']' :: rest).takeWhile Text.isUpperHexDigit = digits := by
      rw [List.takeWhile_append_of_pos hdigits, List.takeWhile_cons_of_neg (by decide), List.append_nil]
    have hlen' : (decide (digits.length = 4) || decide (digits.length = 6) ||
        decide (digits.length = 8)) = true := by
      simpa [or_assoc] using hlen
    simp only [groupText, List.cons_append, List.append_assoc, List.nil_append, group?, htake, hlen',
      if_true, List.drop_left]

/-- No character of a group is a space. -/
theorem ne_space_of_mem_groupText {digits : List Char}
    (h : ∀ d ∈ digits, Text.isUpperHexDigit d = true) : ∀ c ∈ groupText digits, c ≠ ' ' := by
  rintro c hc rfl
  have hmem : ' ' ∈ digits := by simpa [groupText] using hc
  exact absurd (h ' ' hmem) (by decide)

/-! ## Where a literal ends -/

theorem literalLength?_of_closed {cs : List Char} (h : ∀ ds, cs ≠ '"' :: ds) :
    literalLength? ('"' :: cs) = some 1 := by
  rw [literalLength?]
  exact fun ds => h ds

theorem literalLength?_of_group_eq_none {c : Char} {cs : List Char} (hquote : c ≠ '"')
    (hline : c ≠ '\n') (h : group? (c :: cs) = none) :
    literalLength? (c :: cs) = (literalLength? cs).map (· + 1) := by
  rw [literalLength?]
  · simp only [if_neg hline, h]
  · exact fun _ hc => absurd hc hquote
  · exact hquote

/-- A literal goes on behind a group if it ends there, and otherwise ends with the quote in the group. -/
theorem literalLength?_groupText {digits more : List Char}
    (h : group? (groupText digits ++ more) = some digits) :
    literalLength? (groupText digits ++ more) = match literalLength? more with
      | some m => some (m + groupLength digits)
      | none => some 2 := by
  have hdrop : (groupText digits ++ more).drop (groupLength digits) = more :=
    List.drop_left' (length_groupText digits)
  have hcons : groupText digits ++ more = '[' :: '"' :: (digits ++ ['"', ']'] ++ more) := rfl
  rw [hcons] at h hdrop ⊢
  rw [literalLength?]
  · simp only [h, hdrop]
    rfl
  · exact fun _ hc => absurd hc (by decide)
  · decide

/-- A literal that is moved before a space ends where it did. -/
theorem literalLength?_take_append {cs : List Char} {n : Nat} (h : literalLength? cs = some n) :
    n ≤ cs.length ∧ ∀ rest, Spaced rest → literalLength? (cs.take n ++ rest) = some n := by
  have hclosed : ∀ rest, Spaced rest → literalLength? ('"' :: rest) = some 1 :=
    fun rest hrest => literalLength?_of_closed (hrest.ne_cons (by decide))
  fun_induction literalLength? cs generalizing n with
  | case1 => exact absurd h (Option.some_ne_none _).symm
  -- a doubled quote
  | case2 cs m hm ih =>
    obtain rfl : m + 2 = n := Option.some.inj h
    obtain ⟨hle, hstable⟩ := ih hm
    refine ⟨by simpa using hle, fun rest hrest => ?_⟩
    show literalLength? ('"' :: '"' :: (cs.take m ++ rest)) = _
    rw [literalLength?, hstable rest hrest]
  -- the quote that ends the literal
  | case3 cs hm ih =>
    obtain rfl : 1 = n := Option.some.inj h
    exact ⟨by simp, hclosed⟩
  | case4 cs hcs =>
    obtain rfl : 1 = n := Option.some.inj h
    exact ⟨by simp, hclosed⟩
  | case5 => exact absurd h (Option.some_ne_none _).symm
  -- a group, behind which the literal goes on
  | case6 c cs _ hquote hline digits hgroup m hm ih =>
    obtain rfl : m + groupLength digits = n := Option.some.inj h
    obtain ⟨hlen, hdigits, more, hcs⟩ := group?_eq_some_iff.mp hgroup
    rw [← hcs] at hm ih ⊢
    rw [List.drop_left' (length_groupText digits)] at hm ih
    obtain ⟨hle, hstable⟩ := ih hm
    refine ⟨by simp; omega, fun rest hrest => ?_⟩
    have htake : (groupText digits ++ more).take (m + groupLength digits) =
        groupText digits ++ more.take m := by
      rw [Nat.add_comm, ← length_groupText, List.take_length_add_append]
    rw [htake, List.append_assoc]
    rw [literalLength?_groupText (group?_eq_some_iff.mpr ⟨hlen, hdigits, List.prefix_append _ _⟩),
      hstable rest hrest]
  -- a group, behind which the literal does not end: the quote inside the group ends it
  | case7 c cs _ hquote hline digits hgroup hm ih =>
    obtain rfl : 2 = n := Option.some.inj h
    obtain ⟨-, -, more, hcs⟩ := group?_eq_some_iff.mp hgroup
    rw [← hcs]
    refine ⟨by simp [groupLength]; omega, fun rest hrest => ?_⟩
    show literalLength? ('[' :: '"' :: rest) = _
    rw [literalLength?_of_group_eq_none (by decide) (by decide), hclosed rest hrest]
    · rfl
    · refine Option.eq_none_iff_forall_ne_some.mpr fun digits' hgroup' => ?_
      obtain ⟨hlen, hdigits, more', hmore⟩ := group?_eq_some_iff.mp hgroup'
      have hwithin : groupText digits' <+: ['[', '"'] :=
        hrest.prefix_of_append_eq (ne_space_of_mem_groupText hdigits) hmore.symm
      have hlong := hwithin.length_le
      simp [groupLength] at hlong
  -- any other character; cutting the text off behind the literal cannot make a group of it
  | case8 c cs _ hquote hline hgroup ih =>
    obtain ⟨m, hm, rfl⟩ := Option.map_eq_some_iff.mp h
    obtain ⟨hle, hstable⟩ := ih hm
    refine ⟨by simpa using hle, fun rest hrest => ?_⟩
    show literalLength? (c :: (cs.take m ++ rest)) = _
    rw [literalLength?_of_group_eq_none hquote hline, hstable rest hrest]
    · rfl
    · refine Option.eq_none_iff_forall_ne_some.mpr fun digits hgroup' => ?_
      obtain ⟨hlen, hdigits, more, hmore⟩ := group?_eq_some_iff.mp hgroup'
      have hwithin : groupText digits <+: c :: cs.take m :=
        hrest.prefix_of_append_eq (ne_space_of_mem_groupText hdigits) hmore.symm
      have hsame : group? (c :: cs) = some digits := group?_eq_some_iff.mpr
        ⟨hlen, hdigits, hwithin.trans (List.take_prefix (m + 1) (c :: cs))⟩
      exact absurd (hgroup.symm.trans hsame) (Option.some_ne_none _).symm

end Literal

end KconfigLang
