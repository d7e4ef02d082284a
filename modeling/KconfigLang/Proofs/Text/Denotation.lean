import KconfigLang.Text.Numeral
import Mathlib.Data.List.Forall2
import Mathlib.Data.Nat.Digits.Defs

/-!
# What numerals denote

The integer that a numeral denotes is told from the values of its digits and their places. Reading from the left, where
each digit multiplies what came before, comes to the same number.

- `Digits`: some digits of a base denote a natural number.
- `Signed` and `Numeral`: numerals with a sign, and all integer numerals.
- `Accepts`: a predicate holds of the digits of a base; `Accepts.digits_iff` and `Accepts.signedValue?_eq_some_iff`:
  what is read by it is what is denoted.
- `Numeral.unique`: a numeral denotes one integer.
-/

namespace KconfigLang.Text

/-! ## Digits -/

/-- A character is a digit of a base with the given value; letters count in either case. -/
def IsDigit (base : Nat) (c : Char) (d : Nat) : Prop :=
  d < base ∧ (c = Nat.digitChar d ∨ c = (Nat.digitChar d).toUpper)

/-- Some digits denote a number: each counts its value times the power of the base for its place. -/
def Digits (base : Nat) (cs : List Char) (n : Nat) : Prop :=
  cs ≠ [] ∧ ∃ ds, List.Forall₂ (IsDigit base) cs ds ∧ Nat.ofDigits base ds.reverse = n

/-- A predicate holds of the digits of a base, which is at most 16. -/
structure Accepts (p : Char → Bool) (base : Nat) : Prop where
  le : base ≤ 16
  iff : ∀ c, p c = true ↔ ∃ d, IsDigit base c d

theorem toNat_lt_of_isHexDigit {c : Char} (h : isHexDigit c = true) : c.toNat < 128 := by
  simp only [isHexDigit, Char.isDigit, Bool.or_eq_true, Bool.and_eq_true, decide_eq_true_eq, Char.le_def,
    UInt32.le_iff_toNat_le] at h
  show c.val.toNat < 128
  have h9 : '9'.val.toNat = 57 := rfl
  have hF : 'F'.val.toNat = 70 := rfl
  have hf : 'f'.val.toNat = 102 := rfl
  omega

/-- Which characters are digits is seen from the first 128 ones. -/
theorem accepts_of_ascii {p : Char → Bool} {base : Nat} (hle : base ≤ 16) (hhex : ∀ c, p c = true → isHexDigit c = true)
    (hdigit : ∀ n : Fin 128, p (Char.ofNat n) = true → ∃ d : Fin base,
      Char.ofNat n = Nat.digitChar d ∨ Char.ofNat n = (Nat.digitChar d).toUpper)
    (haccept : ∀ d : Fin base, p (Nat.digitChar d) = true ∧ p (Nat.digitChar d).toUpper = true) :
    Accepts p base := by
  refine ⟨hle, fun c => ⟨fun h => ?_, ?_⟩⟩
  · have hc : Char.ofNat c.toNat = c := Char.ofNat_toNat c
    obtain ⟨d, hd⟩ := hdigit ⟨c.toNat, toNat_lt_of_isHexDigit (hhex c h)⟩ (by rwa [hc])
    rw [hc] at hd
    exact ⟨d, d.isLt, hd⟩
  · rintro ⟨d, hd, rfl | rfl⟩
    · exact (haccept ⟨d, hd⟩).1
    · exact (haccept ⟨d, hd⟩).2

theorem accepts_decimal : Accepts Char.isDigit 10 :=
  accepts_of_ascii (by decide) (fun c h => by simp [isHexDigit, h]) (by decide +kernel) (by decide)

theorem accepts_hexadecimal : Accepts isHexDigit 16 :=
  accepts_of_ascii (by decide) (fun _ h => h) (by decide +kernel) (by decide)

theorem IsDigit.value {base d : Nat} {c : Char} (h : IsDigit base c d) (hle : base ≤ 16) : digitValue c = d := by
  have hall : ∀ d : Fin 16, digitValue (Nat.digitChar d) = d ∧ digitValue (Nat.digitChar d).toUpper = d := by decide
  obtain ⟨hd, rfl | rfl⟩ := h
  · exact (hall ⟨d, Nat.lt_of_lt_of_le hd hle⟩).1
  · exact (hall ⟨d, Nat.lt_of_lt_of_le hd hle⟩).2

/-- Reading from the left sums up the digits by their places. -/
theorem digitsValue_eq_ofDigits {base : Nat} (hle : base ≤ 16) {cs : List Char} {ds : List Nat}
    (h : List.Forall₂ (IsDigit base) cs ds) : digitsValue base cs = Nat.ofDigits base ds.reverse := by
  have hvalues : cs.map digitValue = ds := by
    induction h with
    | nil => rfl
    | cons hd _ ih => rw [List.map_cons, hd.value hle, ih]
  rw [Nat.ofDigits_eq_foldr, List.foldr_reverse, ← hvalues, List.foldl_map]
  simp [digitsValue, Nat.add_comm]

theorem exists_forall₂_iff {α β : Type} {R : α → β → Prop} {xs : List α} :
    (∃ ys, List.Forall₂ R xs ys) ↔ ∀ x ∈ xs, ∃ y, R x y := by
  induction xs with
  | nil => simp
  | cons x xs ih =>
    rw [List.forall_mem_cons, ← ih]
    constructor
    · rintro ⟨_, hx⟩
      obtain ⟨y, ys, hy, hys, -⟩ := List.forall₂_cons_left_iff.mp hx
      exact ⟨⟨y, hy⟩, ys, hys⟩
    · rintro ⟨⟨y, hy⟩, ys, hys⟩
      exact ⟨y :: ys, .cons hy hys⟩

namespace Accepts

variable {p : Char → Bool} {base : Nat} {cs : List Char}

/-- Digits are one or more characters that the predicate accepts. -/
theorem digits_iff (h : Accepts p base) {n : Nat} :
    Digits base cs n ↔ cs ≠ [] ∧ (∀ c ∈ cs, p c = true) ∧ digitsValue base cs = n := by
  simp only [Digits, h.iff, ← exists_forall₂_iff]
  refine and_congr_right fun _ => ⟨?_, ?_⟩
  · rintro ⟨ds, hds, rfl⟩
    exact ⟨⟨ds, hds⟩, digitsValue_eq_ofDigits h.le hds⟩
  · rintro ⟨⟨ds, hds⟩, rfl⟩
    exact ⟨ds, hds, (digitsValue_eq_ofDigits h.le hds).symm⟩

theorem digits_of_all (h : Accepts p base) {n : Nat} (hne : cs.isEmpty = false) (hall : cs.all p = true)
    (hvalue : digitsValue base cs = n) : Digits base cs n :=
  h.digits_iff.mpr ⟨List.isEmpty_eq_false_iff.mp hne, List.all_eq_true.mp hall, hvalue⟩

theorem unsigned_eq_some_iff (h : Accepts p base) {n : Int} :
    signedValue?.unsigned base p cs = some n ↔ ∃ m : Nat, Digits base cs m ∧ (m : Int) = n := by
  unfold signedValue?.unsigned
  split
  · rename_i hcs
    simp only [Bool.and_eq_true, Bool.not_eq_true', List.isEmpty_eq_false_iff, List.all_eq_true] at hcs
    have hdigits (m : Nat) : Digits base cs m ↔ digitsValue base cs = m := by
      rw [h.digits_iff, and_iff_right hcs.1, and_iff_right hcs.2]
    simp [hdigits]
  · rename_i hcs
    simp only [Bool.and_eq_true, Bool.not_eq_true', List.isEmpty_eq_false_iff, List.all_eq_true, not_and] at hcs
    simp only [h.digits_iff, reduceCtorEq, false_iff]
    rintro ⟨m, ⟨hne, hall, -⟩, -⟩
    exact hcs hne hall

end Accepts

/-! ## Numerals -/

/-- Digits with an optional sign denote an integer. -/
inductive Signed (base : Nat) : List Char → Int → Prop
  | plain {cs : List Char} {n : Nat} (h : Digits base cs n) : Signed base cs n
  | plus {cs : List Char} {n : Nat} (h : Digits base cs n) : Signed base ('+' :: cs) n
  | minus {cs : List Char} {n : Nat} (h : Digits base cs n) : Signed base ('-' :: cs) (-n)

/-- Integer numerals and what they denote: decimal digits with an optional sign, or hexadecimal digits behind `0x` or
`0X`. -/
inductive Numeral : List Char → Int → Prop
  | decimal {cs : List Char} {n : Int} (h : Signed 10 cs n) : Numeral cs n
  | hexadecimal {x : Char} {cs : List Char} {n : Nat} (hx : x = 'x' ∨ x = 'X') (h : Digits 16 cs n) :
    Numeral ('0' :: x :: cs) n

theorem IsDigit.ne_sign {base d : Nat} {c : Char} (h : IsDigit base c d) (hle : base ≤ 16) : c ≠ '+' ∧ c ≠ '-' := by
  have hall : ∀ d : Fin 16, (Nat.digitChar d ≠ '+' ∧ (Nat.digitChar d).toUpper ≠ '+') ∧
      Nat.digitChar d ≠ '-' ∧ (Nat.digitChar d).toUpper ≠ '-' := by decide
  obtain ⟨⟨hplus, hplus'⟩, hminus, hminus'⟩ := hall ⟨d, Nat.lt_of_lt_of_le h.1 hle⟩
  obtain ⟨hd, rfl | rfl⟩ := h
  · exact ⟨hplus, hminus⟩
  · exact ⟨hplus', hminus'⟩

/-- A sign is no digit. -/
theorem Digits.ne_sign {base n : Nat} {c : Char} {cs : List Char} (h : Digits base (c :: cs) n) (hle : base ≤ 16) :
    c ≠ '+' ∧ c ≠ '-' := by
  obtain ⟨-, ds, hds, -⟩ := h
  obtain ⟨d, -, hd, -⟩ := List.forall₂_cons_left_iff.mp hds
  exact hd.ne_sign hle

theorem Accepts.signedValue?_eq_some_iff {p : Char → Bool} {base : Nat} (h : Accepts p base) {cs : List Char}
    {n : Int} : signedValue? base p cs = some n ↔ Signed base cs n := by
  unfold signedValue?
  split
  · rw [h.unsigned_eq_some_iff]
    constructor
    · rintro ⟨m, hm, rfl⟩
      exact .plus hm
    · intro hn
      cases hn with
      | plain hm => exact absurd rfl (hm.ne_sign h.le).1
      | plus hm => exact ⟨_, hm, rfl⟩
  · simp only [Option.map_eq_some_iff, h.unsigned_eq_some_iff]
    constructor
    · rintro ⟨_, ⟨m, hm, rfl⟩, rfl⟩
      exact .minus hm
    · intro hn
      cases hn with
      | plain hm => exact absurd rfl (hm.ne_sign h.le).2
      | minus hm => exact ⟨_, ⟨_, hm, rfl⟩, rfl⟩
  · rename_i hplus hminus
    rw [h.unsigned_eq_some_iff]
    constructor
    · rintro ⟨m, hm, rfl⟩
      exact .plain hm
    · intro hn
      cases hn with
      | plain hm => exact ⟨_, hm, rfl⟩
      | plus hm => exact absurd rfl (hplus _)
      | minus hm => exact absurd rfl (hminus _)

/-- Decimal digits hold no `x`. -/
theorem not_signed_hexadecimal {x : Char} {cs : List Char} {n : Int} (hx : x = 'x' ∨ x = 'X') :
    ¬ Signed 10 ('0' :: x :: cs) n := by
  intro h
  cases h with
  | plain h =>
    have hdigit := (accepts_decimal.digits_iff.mp h).2.1 x (by simp)
    rcases hx with rfl | rfl
    · exact absurd hdigit (by decide)
    · exact absurd hdigit (by decide)

theorem Digits.unique {base m n : Nat} {cs : List Char} (hm : Digits base cs m) (hn : Digits base cs n)
    {p : Char → Bool} (h : Accepts p base) : m = n := by
  rw [h.digits_iff] at hm hn
  exact hm.2.2.symm.trans hn.2.2

/-- A numeral denotes one integer. -/
theorem Numeral.unique {w : List Char} {m n : Int} (hm : Numeral w m) (hn : Numeral w n) : m = n := by
  cases hm with
  | decimal hm =>
    cases hn with
    | decimal hn =>
      rw [← accepts_decimal.signedValue?_eq_some_iff] at hm hn
      exact Option.some.inj (hm.symm.trans hn)
    | hexadecimal hx => exact absurd hm (not_signed_hexadecimal hx)
  | hexadecimal hx hm =>
    cases hn with
    | decimal hn => exact absurd hn (not_signed_hexadecimal hx)
    | hexadecimal _ hn => exact congrArg Int.ofNat (hm.unique hn accepts_hexadecimal)

end KconfigLang.Text
