import KconfigLang.Proofs.Eval.Comparison
import KconfigLang.Proofs.Text.Denotation
import KconfigLang.Proofs.Text.Quoted
import KconfigLang.Proofs.Text.Trim

/-!
# Strings that are numbers

Strings are equal if they are the same or denote the same integer. What a string denotes is told without reading it: it
is a numeral with white space around it. A string is read as an integer of 128 bits, so larger integers are not
noticed.

- `Denotes`: a string denotes an integer.
- `SignsHexadecimal`: a string has a sign behind `0x`; such a string is no numeral.
- `integer?_eq_some_iff`: which strings are read as integers.
- `eval_equal_strings`: when two strings are equal.
-/

namespace KconfigLang

/-- White space surrounds a text of some kind. -/
def Surrounds (p : List Char → Prop) (s : String) : Prop :=
  ∃ before w after, s.toList = before ++ (w ++ after) ∧ (∀ c ∈ before ++ after, Text.isWhiteSpace c = true) ∧ p w

/-- A string denotes an integer: it is a numeral for it, up to white space around it. -/
def Denotes (s : String) (n : Int) : Prop :=
  Surrounds (Text.Numeral · n) s

namespace Text

/-- Hexadecimal digits with a sign between them and their prefix, as if they denoted an integer. -/
inductive SignedHexadecimal : List Char → Int → Prop
  | plus {x : Char} {cs : List Char} {n : Nat} (hx : x = 'x' ∨ x = 'X') (h : Digits 16 cs n) :
    SignedHexadecimal ('0' :: x :: '+' :: cs) n
  | minus {x : Char} {cs : List Char} {n : Nat} (hx : x = 'x' ∨ x = 'X') (h : Digits 16 cs n) :
    SignedHexadecimal ('0' :: x :: '-' :: cs) (-n)

theorem Digits.not_white {base n : Nat} {cs : List Char} (h : Digits base cs n) (hle : base ≤ 16) :
    ∀ c ∈ cs, isWhiteSpace c = false := by
  intro c hc
  obtain ⟨-, hdigits⟩ := h
  obtain ⟨d, hd, hdigit⟩ := exists_forall₂_iff.mp (hdigits.imp fun _ h => h.1) c hc
  exact not_white_of_isHexDigit ((accepts_hexadecimal.iff c).mpr ⟨d, Nat.lt_of_lt_of_le hd hle, hdigit⟩)

theorem not_white_behind_zero {x : Char} {cs : List Char} (hx : x = 'x' ∨ x = 'X')
    (hcs : ∀ c ∈ cs, isWhiteSpace c = false) : ∀ c ∈ '0' :: x :: cs, isWhiteSpace c = false := by
  have hx' : isWhiteSpace x = false := by
    rcases hx with rfl | rfl <;> decide
  exact List.forall_mem_cons.mpr ⟨by decide, List.forall_mem_cons.mpr ⟨hx', hcs⟩⟩

theorem Numeral.not_white {w : List Char} {n : Int} (h : Numeral w n) : ∀ c ∈ w, isWhiteSpace c = false := by
  cases h with
  | hexadecimal hx h => exact not_white_behind_zero hx (h.not_white (by decide))
  | decimal h =>
    cases h with
    | plain h => exact h.not_white (by decide)
    | plus h | minus h => exact List.forall_mem_cons.mpr ⟨by decide, h.not_white (by decide)⟩

theorem SignedHexadecimal.not_white {w : List Char} {n : Int} (h : SignedHexadecimal w n) :
    ∀ c ∈ w, isWhiteSpace c = false := by
  cases h with
  | plus hx h | minus hx h =>
    exact not_white_behind_zero hx (List.forall_mem_cons.mpr ⟨by decide, h.not_white (by decide)⟩)

/-- Behind the prefix stand hexadecimal digits; a sign before them is taken as well. -/
theorem signed_hexadecimal_iff {x : Char} {cs : List Char} {n : Int} (hx : x = 'x' ∨ x = 'X') :
    Signed 16 cs n ↔ Numeral ('0' :: x :: cs) n ∨ SignedHexadecimal ('0' :: x :: cs) n := by
  constructor
  · intro h
    cases h with
    | plain h => exact .inl (.hexadecimal hx h)
    | plus h => exact .inr (.plus hx h)
    | minus h => exact .inr (.minus hx h)
  · rintro (h | h)
    · cases h with
      | decimal h => exact absurd h (not_signed_hexadecimal hx)
      | hexadecimal _ h => exact .plain h
    · cases h with
      | plus _ h => exact .plus h
      | minus _ h => exact .minus h

/-- Without the prefix all digits are decimal. -/
theorem signed_decimal_iff {cs : List Char} {n : Int} (hx : ∀ ds, cs ≠ '0' :: 'x' :: ds)
    (hX : ∀ ds, cs ≠ '0' :: 'X' :: ds) : Signed 10 cs n ↔ Numeral cs n ∨ SignedHexadecimal cs n := by
  have hne {x : Char} {ds : List Char} (hmark : x = 'x' ∨ x = 'X') : cs ≠ '0' :: x :: ds := by
    rcases hmark with rfl | rfl
    · exact hx ds
    · exact hX ds
  constructor
  · exact fun h => .inl (.decimal h)
  · rintro (h | h)
    · cases h with
      | decimal h => exact h
      | hexadecimal hmark => exact absurd rfl (hne hmark)
    · cases h with
      | plus hmark | minus hmark => exact absurd rfl (hne hmark)

theorem inSignedRange_iff {bits : Nat} {n : Int} :
    inSignedRange bits n = true ↔ -2 ^ (bits - 1) ≤ n ∧ n < 2 ^ (bits - 1) := by
  rw [inSignedRange, Bool.and_eq_true, decide_eq_true_eq, decide_eq_true_eq]
  rfl

end Text

/-- A string has a sign between `0x` and its digits, which no numeral has. -/
def SignsHexadecimal (s : String) : Prop :=
  Surrounds (fun w => ∃ n, Text.SignedHexadecimal w n) s

/-- A text without white space is what is left of a string where white space surrounds it. -/
theorem surrounds_iff {p : List Char → Prop} (hp : ∀ w, p w → ∀ c ∈ w, Text.isWhiteSpace c = false) {s : String} :
    Surrounds p s ↔ p (Text.trim s.toList) := by
  constructor
  · rintro ⟨before, w, after, hs, hwhite, hw⟩
    rwa [(Text.trim_eq_iff (hp w hw)).mpr ⟨before, after, hs, hwhite⟩]
  · intro hw
    obtain ⟨before, after, hs, hwhite⟩ := Text.exists_trim s.toList
    exact ⟨before, _, after, hs, hwhite, hw⟩

theorem denotes_of_numeral {s : String} {n : Int} (h : Text.Numeral s.toList n) : Denotes s n :=
  ⟨[], s.toList, [], by simp, List.forall_mem_nil _, h⟩

theorem denotes_iff {s : String} {n : Int} : Denotes s n ↔ Text.Numeral (Text.trim s.toList) n :=
  surrounds_iff fun _ => Text.Numeral.not_white

theorem signsHexadecimal_iff {s : String} :
    SignsHexadecimal s ↔ ∃ n, Text.SignedHexadecimal (Text.trim s.toList) n :=
  surrounds_iff fun _ ⟨_, h⟩ => h.not_white

/-- The sign is the third character. -/
theorem SignsHexadecimal.sign {s : String} (h : SignsHexadecimal s) :
    (Text.trim s.toList)[2]? = some '+' ∨ (Text.trim s.toList)[2]? = some '-' := by
  obtain ⟨n, h⟩ := signsHexadecimal_iff.mp h
  generalize Text.trim s.toList = w at h
  cases h with
  | plus => exact .inl rfl
  | minus => exact .inr rfl

/-! ## Reading integers -/

/-- A string is read as an integer of 128 bits if it denotes it; a sign behind `0x` is taken as well. -/
theorem integer?_eq_some_iff {s : String} {n : Int} : integer? s = some n ↔
    (Denotes s n ∨ Text.SignedHexadecimal (Text.trim s.toList) n) ∧ -2 ^ 127 ≤ n ∧ n < 2 ^ 127 := by
  rw [denotes_iff, integer?, Option.filter_eq_some_iff]
  refine and_congr ?_ Text.inSignedRange_iff
  split
  · rw [Text.accepts_hexadecimal.signedValue?_eq_some_iff, Text.signed_hexadecimal_iff (.inl rfl)]
    rename_i h
    rw [h]
  · rw [Text.accepts_hexadecimal.signedValue?_eq_some_iff, Text.signed_hexadecimal_iff (.inr rfl)]
    rename_i h
    rw [h]
  · rename_i hx hX
    rw [Text.accepts_decimal.signedValue?_eq_some_iff, Text.signed_decimal_iff hx hX]

/-- So it is with `0x-1`, which denotes nothing. -/
example : integer? "0x-1" = some (-1) := by
  decide

theorem integer?_eq_some_iff_denotes {s : String} (hs : ¬ SignsHexadecimal s) {n : Int} :
    integer? s = some n ↔ Denotes s n ∧ -2 ^ 127 ≤ n ∧ n < 2 ^ 127 := by
  have hsign : ¬ Text.SignedHexadecimal (Text.trim s.toList) n := fun h => hs (signsHexadecimal_iff.mpr ⟨n, h⟩)
  rw [integer?_eq_some_iff, or_iff_left hsign]

/-! ## Equality -/

/-- Strings compare as equal if they are the same or are read as the same integer. -/
theorem compareText_eq_iff_read {a b : String} :
    compareText a b = .eq ↔ a = b ∨ ∃ n, integer? a = some n ∧ integer? b = some n := by
  cases ha : integer? a with
  | none => simp [compareText_of_none (.inl ha)]
  | some m =>
    cases hb : integer? b with
    | none => simp [compareText_of_none (.inr hb)]
    | some n =>
      rw [compareText_of_some ha hb, Std.compare_eq_iff_eq]
      constructor
      · rintro rfl
        exact .inr ⟨m, rfl, rfl⟩
      · rintro (rfl | ⟨k, hm, hn⟩)
        · exact Option.some.inj (ha.symm.trans hb)
        · exact (Option.some.inj hm).trans (Option.some.inj hn).symm

section Operands

variable {check : Checking} {lookup : String → Option Value} {lhs rhs : Expr} {a b : String}

/-- A comparison of strings goes by their order, whether or not kinds are checked. -/
theorem eval_comparison_strings {op : BinaryOp} (hop : op ∈ BinaryOp.comparisons)
    (hl : eval check lookup lhs = .ok (.string a)) (hr : eval check lookup rhs = .ok (.string b)) (span : Span) :
    eval check lookup (.binary lhs op rhs span) = .ok (.tristate (.ofBool (op.holds (compareText a b)))) := by
  cases op with
  | and | or => exact absurd hop (by decide)
  | _ =>
    simp only [eval, hl, hr]
    rfl

/-- **Equality of strings**: two strings are equal, whether or not kinds are checked, if they are the same or denote
the same integer of 128 bits. Strings with a sign behind `0x` are left out. -/
theorem eval_equal_strings (hl : eval check lookup lhs = .ok (.string a)) (hr : eval check lookup rhs = .ok (.string b))
    (ha : ¬ SignsHexadecimal a) (hb : ¬ SignsHexadecimal b) :
    ∃ holds, (∀ span, eval check lookup (.binary lhs .equal rhs span) = .ok (.tristate (.ofBool holds))) ∧
      (holds = true ↔ a = b ∨ ∃ n, Denotes a n ∧ Denotes b n ∧ -2 ^ 127 ≤ n ∧ n < 2 ^ 127) := by
  refine ⟨BinaryOp.equal.holds (compareText a b), eval_comparison_strings (by decide) hl hr, ?_⟩
  have hcompare : BinaryOp.equal.holds (compareText a b) = true ↔ compareText a b = .eq := beq_iff_eq
  rw [hcompare, compareText_eq_iff_read]
  simp only [integer?_eq_some_iff_denotes ha, integer?_eq_some_iff_denotes hb]
  constructor
  · rintro (h | ⟨n, ⟨hm, hrange⟩, hn, -⟩)
    · exact .inl h
    · exact .inr ⟨n, hm, hn, hrange⟩
  · rintro (h | ⟨n, hm, hn, hrange⟩)
    · exact .inl h
    · exact .inr ⟨n, ⟨hm, hrange⟩, hn, hrange⟩

end Operands

/-- A string between quotes, as an expression. -/
def Expr.quoted (s : String) : Expr :=
  .string ⟨s, Text.quoted s, default⟩

/-- Numerals of both bases are equal, with blanks around one and a sign before the other, also where kinds are
checked. -/
theorem equal_strings_of_bases :
    eval .strict (fun _ => none) (.binary (.quoted " 0x1F\t") .equal (.quoted "+31") default) =
      .ok (.tristate .yes) := by
  have hl : eval .strict (fun _ => none) (.quoted " 0x1F\t") = .ok (.string " 0x1F\t") := rfl
  have hr : eval .strict (fun _ => none) (.quoted "+31") = .ok (.string "+31") := rfl
  obtain ⟨holds, heval, hholds⟩ :=
    eval_equal_strings hl hr (fun h => absurd h.sign (by decide)) (fun h => absurd h.sign (by decide))
  have hhex : Text.Digits 16 "1F".toList 31 :=
    Text.accepts_hexadecimal.digits_of_all (by decide) (by decide) (by decide)
  have hdecimal : Text.Digits 10 "31".toList 31 :=
    Text.accepts_decimal.digits_of_all (by decide) (by decide) (by decide)
  have ha : Denotes " 0x1F\t" 31 := denotes_iff.mpr (.hexadecimal (.inl rfl) hhex)
  have hb : Denotes "+31" 31 := denotes_of_numeral (.decimal (.plus hdecimal))
  rw [heval, hholds.mpr (.inr ⟨31, ha, hb, by decide⟩)]
  rfl

/-- The least integer beyond 128 bits, written in both bases, is not noticed to be the same. -/
theorem not_equal_beyond_range :
    Denotes "0x80000000000000000000000000000000" (2 ^ 127) ∧
      Denotes "170141183460469231731687303715884105728" (2 ^ 127) ∧
      ∀ check lookup span, eval check lookup (.binary (.quoted "0x80000000000000000000000000000000") .equal
        (.quoted "170141183460469231731687303715884105728") span) = .ok (.tristate .no) := by
  have hhex : Text.Digits 16 "80000000000000000000000000000000".toList (2 ^ 127) :=
    Text.accepts_hexadecimal.digits_of_all (by decide) (by decide) (by decide +kernel)
  have hdecimal : Text.Digits 10 "170141183460469231731687303715884105728".toList (2 ^ 127) :=
    Text.accepts_decimal.digits_of_all (by decide) (by decide) (by decide +kernel)
  refine ⟨?_, ?_, fun check lookup span => ?_⟩
  · exact denotes_of_numeral (.hexadecimal (.inl rfl) hhex)
  · exact denotes_of_numeral (.decimal (.plain hdecimal))
  · rw [eval_comparison_strings (by decide) rfl rfl]
    have hholds : BinaryOp.equal.holds (compareText "0x80000000000000000000000000000000"
        "170141183460469231731687303715884105728") = false := by decide +kernel
    rw [hholds]
    rfl

end KconfigLang
