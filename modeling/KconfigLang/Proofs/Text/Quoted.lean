import KconfigLang.Proofs.Text.Numeral
import KconfigLang.Text.Quoted

/-!
# Quoted texts that are read back

A text between double quotes says which text it stands for and where it ends, whatever stands behind it.

- `readEscaped`: reads one character, escaped or not.
- `readEscaped_escapeChar`: an escaped character is read back.
- `quoted_append_inj`: two quoted texts that start alike stand for the same text.
- `not_white_of_mem_escapeChar`: the only white space between quotes is the plain space.
-/

namespace KconfigLang.Text

/-- The character at the start of a quoted text, escaped or not, and what follows it. -/
def readEscaped : List Char → Option (Char × List Char)
  | [] => none
  | '\\' :: '0' :: rest => some ('\x00', rest)
  | '\\' :: 't' :: rest => some ('\t', rest)
  | '\\' :: 'r' :: rest => some ('\r', rest)
  | '\\' :: 'n' :: rest => some ('\n', rest)
  | '\\' :: 'u' :: '\x7b' :: rest =>
    let digits := rest.takeWhile isHexDigit
    some (Char.ofNat (digitsValue 16 digits), rest.drop (digits.length + 1))
  | '\\' :: c :: rest => some (c, rest)
  | c :: rest => some (c, rest)

/-- A code point in hexadecimal digits is read up to the brace that ends it. -/
theorem readEscaped_codePoint (c : Char) (rest : List Char) :
    readEscaped (['\\', 'u', '\x7b'] ++ hexDigits c.toNat ++ ['\x7d'] ++ rest) = some (c, rest) := by
  have hdigits : (hexDigits c.toNat ++ '\x7d' :: rest).takeWhile isHexDigit = hexDigits c.toNat := by
    rw [List.takeWhile_append_of_pos fun d hd => isHexDigit_of_mem_hexDigits hd]
    simp [isHexDigit]
  have hvalue : digitsValue 16 (hexDigits c.toNat) = c.toNat :=
    digitsValue_toDigits (by decide) (by decide) c.toNat
  show readEscaped ('\\' :: 'u' :: '\x7b' :: (hexDigits c.toNat ++ ['\x7d'] ++ rest)) = _
  rw [List.append_assoc, List.singleton_append, readEscaped, hdigits, hvalue, Char.ofNat_toNat]
  simp

/-- The escapes have different second characters, so the reader finds the one that was written. -/
theorem readEscaped_escapeChar (c : Char) (rest : List Char) :
    readEscaped (escapeChar '"' c ++ rest) = some (c, rest) := by
  unfold escapeChar
  by_cases h0 : c = '\x00'
  · subst h0; rfl
  by_cases ht : c = '\t'
  · subst ht; rfl
  by_cases hr : c = '\r'
  · subst hr; rfl
  by_cases hn : c = '\n'
  · subst hn; rfl
  rw [if_neg h0, if_neg ht, if_neg hr, if_neg hn]
  by_cases hq : (c = '\\' || c = '"') = true
  · rw [if_pos hq]
    rcases (Bool.or_eq_true _ _).mp hq with h | h <;> rw [of_decide_eq_true h] <;> rfl
  rw [if_neg hq]
  have hback : c ≠ '\\' := by
    rintro rfl
    exact hq rfl
  split
  · exact readEscaped_codePoint c rest
  · show readEscaped (c :: rest) = _
    unfold readEscaped
    split <;> simp_all

/-- The character that ends a quoted text does not start an escaped one. -/
theorem escapeChar_append_ne (c : Char) (rest ds : List Char) : escapeChar '"' c ++ rest ≠ '"' :: ds := by
  intro h
  have hread := readEscaped_escapeChar c rest
  rw [h] at hread
  -- Only the quote itself is read where a quote stands, and a quote is written with a backslash.
  obtain ⟨rfl, -⟩ := Prod.mk.inj (Option.some.inj hread)
  exact absurd (List.cons.inj h).1 (by decide)

/-- The characters of a text as they stand between double quotes. -/
def escaped (v : List Char) : List Char :=
  v.flatMap (escapeChar '"')

@[simp] theorem escaped_nil : escaped [] = [] :=
  rfl

@[simp] theorem escaped_cons (c : Char) (cs : List Char) :
    escaped (c :: cs) = escapeChar '"' c ++ escaped cs :=
  List.flatMap_cons

theorem toList_quoted (s : String) : (quoted s).toList = '"' :: (escaped s.toList ++ ['"']) :=
  String.toList_ofList

/-- Up to the closing quote a text is read character by character. -/
theorem escaped_append_inj {v w : List Char} {rest rest' : List Char}
    (h : escaped v ++ '"' :: rest = escaped w ++ '"' :: rest') : v = w ∧ rest = rest' := by
  induction v generalizing w with
  | nil =>
    cases w with
    | nil => exact ⟨rfl, (List.cons.inj h).2⟩
    | cons d ds =>
      rw [escaped_nil, List.nil_append, escaped_cons, List.append_assoc] at h
      exact absurd h.symm (escapeChar_append_ne d _ _)
  | cons c cs ih =>
    cases w with
    | nil =>
      rw [escaped_nil, List.nil_append, escaped_cons, List.append_assoc] at h
      exact absurd h (escapeChar_append_ne c _ _)
    | cons d ds =>
      simp only [escaped_cons, List.append_assoc] at h
      have hread := congrArg readEscaped h
      rw [readEscaped_escapeChar, readEscaped_escapeChar] at hread
      obtain ⟨rfl, hmore⟩ := Prod.mk.inj (Option.some.inj hread)
      obtain ⟨rfl, rfl⟩ := ih hmore
      exact ⟨rfl, rfl⟩

/-- Two quoted texts that start alike stand for the same text and end at the same place. -/
theorem quoted_append_inj {v w : String} {rest rest' : List Char}
    (h : (quoted v).toList ++ rest = (quoted w).toList ++ rest') : v = w ∧ rest = rest' := by
  simp only [toList_quoted, List.cons_append, List.append_assoc, List.cons.injEq, true_and] at h
  obtain ⟨hvalue, hrest⟩ := escaped_append_inj h
  exact ⟨String.toList_injective hvalue, hrest⟩

/-! ## White space between quotes -/

/-- White space other than the plain space has no glyph. -/
theorem eq_space_of_isPrintable {c : Char} (hwhite : isWhiteSpace c = true) (h : isPrintable c = true) :
    c = ' ' := by
  have hcover : ∀ r ∈ whiteSpaceRanges, r = (0x20, 0x20) ∨
      ∃ s ∈ unprintableRanges, s.1 ≤ r.1 ∧ r.2 ≤ s.2 := by decide +kernel
  obtain ⟨r, hr, hc⟩ := List.any_eq_true.mp hwhite
  obtain ⟨hlow, hhigh⟩ := by simpa using hc
  rcases hcover r hr with rfl | ⟨s, hs, hslow, hshigh⟩
  · exact Char.toNat_inj.mp (Nat.le_antisymm hhigh hlow)
  · have hranges : inRanges unprintableRanges c = true :=
      List.any_eq_true.mpr ⟨s, hs, by simp; omega⟩
    rw [isPrintable, hranges] at h
    exact absurd h Bool.false_ne_true

theorem not_white_of_isHexDigit {c : Char} (h : isHexDigit c = true) : isWhiteSpace c = false := by
  refine Bool.eq_false_iff.mpr fun hwhite => ?_
  have hbounds : 48 ≤ c.toNat ∧ c.toNat ≤ 102 := by
    simp only [isHexDigit, Char.isDigit, Bool.or_eq_true, Bool.and_eq_true, decide_eq_true_eq,
      Char.le_def, UInt32.le_iff_toNat_le, ge_iff_le] at h
    rcases h with (⟨hlow, hhigh⟩ | ⟨hlow, hhigh⟩) | ⟨hlow, hhigh⟩
    · exact ⟨hlow, Nat.le_trans hhigh (by decide)⟩
    · exact ⟨Nat.le_trans (by decide) hlow, hhigh⟩
    · exact ⟨Nat.le_trans (by decide) hlow, Nat.le_trans hhigh (by decide)⟩
  simp only [isWhiteSpace, inRanges, whiteSpaceRanges, List.any_cons, List.any_nil,
    Bool.or_eq_true, Bool.and_eq_true, decide_eq_true_eq, Bool.or_false] at hwhite
  omega

theorem escapeChar_space : escapeChar '"' ' ' = [' '] := by
  decide +kernel

/-- The plain space is the only character that is written with white space between quotes. -/
theorem not_white_of_mem_escapeChar {c d : Char} (hc : c ≠ ' ') (h : d ∈ escapeChar '"' c) :
    isWhiteSpace d = false := by
  have hpair {e : Char} (he : isWhiteSpace e = false) (h : d ∈ ['\\', e]) : isWhiteSpace d = false := by
    rcases List.mem_cons.mp h with rfl | h
    · decide
    · rw [List.mem_singleton.mp h, he]
  unfold escapeChar at h
  split at h
  · exact hpair (by decide) h
  split at h
  · exact hpair (by decide) h
  split at h
  · exact hpair (by decide) h
  split at h
  · exact hpair (by decide) h
  split at h
  · rename_i hquote
    rcases (Bool.or_eq_true _ _).mp hquote with hc | hc <;> rw [of_decide_eq_true hc] at h
    · exact hpair (by decide) h
    · exact hpair (by decide) h
  split at h
  · rw [List.mem_append, List.mem_append] at h
    rcases h with (h | h) | h
    · have hopen : ['\\', 'u', '\x7b'].all (!isWhiteSpace ·) = true := by decide
      simpa using List.all_eq_true.mp hopen d h
    · exact not_white_of_isHexDigit (isHexDigit_of_mem_hexDigits h)
    · rw [List.mem_singleton.mp h]
      decide
  · rename_i hshown
    obtain rfl := List.mem_singleton.mp h
    have hprint : isPrintable d = true := by
      cases hprint : isPrintable d with
      | true => rfl
      | false => exact absurd (by simp [hprint]) hshown
    exact Bool.eq_false_iff.mpr fun hwhite => hc (eq_space_of_isPrintable hwhite hprint)

end KconfigLang.Text
