import KconfigLang.Text.Numeral

/-!
# Numerals that are read back

A number written in base 10 or 16 is read back as itself.

- `digitsValue_toDigits`: the digits of a number denote it.
- `isHexDigit_of_mem_hexDigits`: hexadecimal digits are hexadecimal digits.
- `scalar?_eq_some_iff`: a code point names the character that has it.
-/

namespace KconfigLang.Text

theorem digitValue_digitChar {d : Nat} (h : d < 16) : digitValue (Nat.digitChar d) = d := by
  have hall : ∀ d : Fin 16, digitValue (Nat.digitChar d) = d := by decide
  exact hall ⟨d, h⟩

theorem isHexDigit_digitChar {d : Nat} (h : d < 16) : isHexDigit (Nat.digitChar d) = true := by
  have hall : ∀ d : Fin 16, isHexDigit (Nat.digitChar d) = true := by decide
  exact hall ⟨d, h⟩

theorem digitsValue_append_singleton (base : Nat) (digits : List Char) (c : Char) :
    digitsValue base (digits ++ [c]) = base * digitsValue base digits + digitValue c := by
  simp [digitsValue]

/-- The digits of a number denote it; by induction on the number, whose last digit comes off first. -/
theorem digitsValue_toDigits {base : Nat} (hbase : 1 < base) (h16 : base ≤ 16) (n : Nat) :
    digitsValue base (Nat.toDigits base n) = n := by
  induction n using Nat.strongRecOn with
  | _ n ih =>
    by_cases hn : n < base
    · rw [Nat.toDigits_of_lt_base hn]
      simpa [digitsValue] using digitValue_digitChar (Nat.lt_of_lt_of_le hn h16)
    · have hle : base ≤ n := Nat.le_of_not_lt hn
      have hmod : n % base < 16 := Nat.lt_of_lt_of_le (Nat.mod_lt n (by omega)) h16
      rw [Nat.toDigits_of_base_le hbase hle, digitsValue_append_singleton,
        ih (n / base) (Nat.div_lt_self (by omega) hbase), digitValue_digitChar hmod]
      exact Nat.div_add_mod n base

theorem isHexDigit_of_mem_hexDigits {n : Nat} {c : Char} (h : c ∈ hexDigits n) :
    isHexDigit c = true := by
  unfold hexDigits at h
  induction n using Nat.strongRecOn with
  | _ n ih =>
    by_cases hn : n < 16
    · rw [Nat.toDigits_of_lt_base hn, List.mem_singleton] at h
      exact h ▸ isHexDigit_digitChar hn
    · rw [Nat.toDigits_of_base_le (by decide) (Nat.le_of_not_lt hn), List.mem_append,
        List.mem_singleton] at h
      rcases h with h | rfl
      · exact ih (n / 16) (by omega) h
      · exact isHexDigit_digitChar (Nat.mod_lt n (by decide))

/-- A code point names the character that has it. -/
theorem scalar?_eq_some_iff {n : Nat} {c : Char} : scalar? n = some c ↔ c.toNat = n := by
  unfold scalar?
  constructor
  · intro h
    split at h
    · rename_i hvalid
      rw [← Option.some.inj h, Char.ofNat, dif_pos hvalid]
      rfl
    · exact absurd h (Option.some_ne_none _).symm
  · rintro rfl
    have hvalid : c.toNat.isValidChar := c.valid
    rw [if_pos hvalid, Char.ofNat_toNat]

end KconfigLang.Text
