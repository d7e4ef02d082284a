import KconfigLang.Proofs.Text.Numeral
import KconfigLang.Proofs.Token.Literal
import KconfigLang.Proofs.Token.Tokenize

/-!
# Spellings

Tokens that are written with a space between each two are read back.

- `ReadsAs` and `Spells`: some characters are read as a lexeme, as a token, whatever comes behind the next space.
- `readsAs_decimal`, `readsAs_negative` and `readsAs_hexadecimal`: what digits are read as, also if the number does not
  fit.
- `Token.Readable`: what holds of every token that a text has.
- `spells_text`: such a token is spelled by its text.
- `contents_spacedPieces`: what a stream yields of pieces with spaces between them.
- `tokenize_spacedText`: the tokens of a text in which spaces separate the spellings.
-/

namespace KconfigLang

/-- Some characters are read as a lexeme, whatever comes behind the next space. -/
def ReadsAs (cs : List Char) (kind : LexemeKind) : Prop :=
  ∃ c ds, cs = c :: ds ∧ ∀ rest, Spaced rest → Lexeme.read c (ds ++ rest) = ⟨kind, ds.length⟩

/-- Some characters are read as a token, whatever comes behind the next space. -/
def Spells (cs : List Char) (t : Token) : Prop :=
  ∃ c ds, cs = c :: ds ∧ ∀ rest, Spaced rest → Lexeme.read c (ds ++ rest) = ⟨.token t, ds.length⟩

theorem takeWhile_spaced {p : Char → Bool} {cs rest : List Char} (hcs : ∀ c ∈ cs, p c = true)
    (hspace : p ' ' = false) (h : Spaced rest) : (cs ++ rest).takeWhile p = cs := by
  rw [List.takeWhile_append_of_pos hcs]
  rcases h.cases with rfl | ⟨ds, rfl⟩ <;> simp [hspace]

/-! ## Which lexeme a character starts -/

namespace Lexeme

/-- Letters and digits start neither gaps nor comments. -/
theorem read_alphanum {c : Char} (h : c.isAlphanum = true) (cs : List Char) :
    read c cs = if c.isAlpha then word c cs else number c cs := by
  have hspace : ¬ isSpace c = true := by
    simp only [isSpace, Bool.or_eq_true, decide_eq_true_eq]
    rintro ((((rfl | rfl) | rfl) | rfl) | rfl) <;> exact absurd h (by decide)
  have hbackslash : c ≠ '\\' := by rintro rfl; exact absurd h (by decide)
  have hhash : c ≠ '#' := by rintro rfl; exact absurd h (by decide)
  rw [read, if_neg hspace, if_neg hbackslash, if_neg hhash]
  by_cases halpha : c.isAlpha = true
  · rw [if_pos halpha, if_pos halpha]
  · have hdigit : c.isDigit = true := ((Bool.or_eq_true _ _).mp h).resolve_left halpha
    rw [if_neg halpha, if_neg halpha, if_pos hdigit]

theorem read_letter {c : Char} (h : c.isAlpha = true) (cs : List Char) : read c cs = word c cs := by
  rw [read_alphanum (by simp [Char.isAlphanum, h]), if_pos h]

theorem not_isAlpha_of_isDigit {c : Char} (h : c.isDigit = true) : ¬ c.isAlpha = true := by
  show ¬ (decide (c.val ≥ 'A'.val ∧ c.val ≤ 'Z'.val) ||
    decide (c.val ≥ 'a'.val) && decide (c.val ≤ 'z'.val)) = true
  simp only [Char.isDigit, Bool.or_eq_true, Bool.and_eq_true, decide_eq_true_eq,
    UInt32.le_iff_toNat_le, ge_iff_le] at h ⊢
  have h0 : '9'.val.toNat = 57 := rfl
  have h1 : 'A'.val.toNat = 65 := rfl
  have h2 : 'a'.val.toNat = 97 := rfl
  omega

theorem read_digit {c : Char} (h : c.isDigit = true) (cs : List Char) : read c cs = number c cs := by
  rw [read_alphanum (by simp [Char.isAlphanum, h]), if_neg (not_isAlpha_of_isDigit h)]

/-- A number is decimal unless hexadecimal digits stand behind its `0x`. -/
theorem number_of_no_hexDigits {c : Char} {cs : List Char}
    (h : ∀ ds, c :: cs = '0' :: 'x' :: ds → ds.takeWhile Text.isHexDigit = []) :
    number c cs = decimal (Text.digitsValue 10 (c :: cs.takeWhile Char.isDigit))
      (cs.takeWhile Char.isDigit).length := by
  unfold number
  split
  · rename_i ds
    exact if_pos (List.isEmpty_iff.mpr (h ds rfl))
  · exact if_pos rfl

theorem number_decimal {c : Char} {cs : List Char} (h : ∀ ds, cs ≠ 'x' :: ds) :
    number c cs = decimal (Text.digitsValue 10 (c :: cs.takeWhile Char.isDigit))
      (cs.takeWhile Char.isDigit).length :=
  number_of_no_hexDigits fun ds heq => absurd (List.cons.inj heq).2 (h ds)

theorem number_hex {cs : List Char} (h : cs.takeWhile Text.isHexDigit ≠ []) :
    number '0' ('x' :: cs) = hexadecimal (Text.digitsValue 16 (cs.takeWhile Text.isHexDigit))
      ((cs.takeWhile Text.isHexDigit).length + 1) := by
  exact if_neg fun hempty => h (List.isEmpty_iff.mp hempty)

theorem read_dash (cs : List Char) : read '-' cs = dash cs := rfl

theorem read_quote (cs : List Char) : read '"' cs = string cs := rfl

end Lexeme

/-! ## Marks, words and numbers -/

theorem spells_mark (m : Mark) : Spells m.text.toList (.mark m) := by
  cases m
  case notEqual => exact ⟨'!', ['='], rfl, fun _ _ => rfl⟩
  case lessEqual => exact ⟨'<', ['='], rfl, fun _ _ => rfl⟩
  case greaterEqual => exact ⟨'>', ['='], rfl, fun _ _ => rfl⟩
  case and => exact ⟨'&', ['&'], rfl, fun _ _ => rfl⟩
  case or => exact ⟨'|', ['|'], rfl, fun _ _ => rfl⟩
  all_goals
    refine ⟨_, [], rfl, fun rest h => ?_⟩
    rcases h.cases with rfl | ⟨cs, rfl⟩ <;> rfl

theorem spells_word {c : Char} {cs : List Char} (hc : c.isAlpha = true)
    (hcs : ∀ d ∈ cs, Lexeme.isWordChar d = true) (hhelp : String.ofList (c :: cs) ≠ "help") :
    Spells (c :: cs) (.ofWord (String.ofList (c :: cs))) := by
  refine ⟨c, cs, rfl, fun rest h => ?_⟩
  rw [Lexeme.read_letter hc, Lexeme.word, takeWhile_spaced hcs rfl h, if_neg hhelp]

/-- Whether a number fits does not depend on how it is written. -/
theorem Lexeme.decimal_eq (value : Int) (extra : Nat) : decimal value extra = ⟨(decimal value 0).kind, extra⟩ := by
  unfold decimal
  split <;> rfl

theorem Lexeme.hexadecimal_eq (value extra : Nat) :
    hexadecimal value extra = ⟨(hexadecimal value 0).kind, extra⟩ := by
  unfold hexadecimal
  split <;> rfl

section Digits

variable {cs : List Char}

theorem readsAs_decimal (hne : cs ≠ []) (hdigits : ∀ c ∈ cs, c.isDigit = true) :
    ReadsAs cs (Lexeme.decimal (Text.digitsValue 10 cs) 0).kind := by
  obtain ⟨c, cs, rfl⟩ := List.exists_cons_of_ne_nil hne
  refine ⟨c, cs, rfl, fun rest hrest => ?_⟩
  obtain ⟨hc, hcs⟩ := List.forall_mem_cons.mp hdigits
  -- The digits are decimal: after a leading zero comes a digit or a space, and never an `x`.
  have hhex : ∀ ds, cs ++ rest ≠ 'x' :: ds := by
    intro ds hds
    cases cs with
    | nil => exact absurd (hrest 'x' (by rw [List.nil_append] at hds; rw [hds]; rfl)) (by decide)
    | cons d cs =>
      obtain rfl := (List.cons.inj hds).1
      exact absurd (hcs 'x' List.mem_cons_self) (by decide)
  rw [Lexeme.read_digit hc, Lexeme.number_decimal hhex, takeWhile_spaced hcs rfl hrest, Lexeme.decimal_eq]

theorem readsAs_negative (hne : cs ≠ []) (hdigits : ∀ c ∈ cs, c.isDigit = true) :
    ReadsAs ('-' :: cs) (Lexeme.decimal (-(Text.digitsValue 10 cs : Int)) 0).kind := by
  refine ⟨'-', cs, rfl, fun rest hrest => ?_⟩
  have hempty : cs.isEmpty = false := List.isEmpty_eq_false_iff.mpr hne
  rw [Lexeme.read_dash, Lexeme.dash, takeWhile_spaced hdigits rfl hrest, Lexeme.decimal_eq]
  simp [hempty]

theorem readsAs_hexadecimal (hne : cs ≠ []) (hdigits : ∀ c ∈ cs, Text.isHexDigit c = true) :
    ReadsAs ('0' :: 'x' :: cs) (Lexeme.hexadecimal (Text.digitsValue 16 cs) 0).kind := by
  refine ⟨'0', 'x' :: cs, rfl, fun rest hrest => ?_⟩
  have htake : (cs ++ rest).takeWhile Text.isHexDigit = cs := takeWhile_spaced hdigits rfl hrest
  show Lexeme.number '0' ('x' :: (cs ++ rest)) = _
  rw [Lexeme.number_hex (by rwa [htake]), htake, Lexeme.hexadecimal_eq, List.length_cons]

end Digits

theorem isDigit_of_mem_toDigits {n : Nat} : ∀ c ∈ Nat.toDigits 10 n, c.isDigit = true :=
  fun _ => Nat.isDigit_of_mem_toDigits (by decide) (by decide)

theorem spells_natural {n : Nat} (h : Text.inSignedRange 64 n = true) :
    Spells (Nat.toDigits 10 n) (.number n) := by
  have hread := readsAs_decimal Nat.toDigits_ne_nil (isDigit_of_mem_toDigits (n := n))
  rwa [Text.digitsValue_toDigits (by decide) (by decide), Lexeme.decimal, if_pos h] at hread

theorem spells_negative {n : Nat} (h : Text.inSignedRange 64 (-n) = true) :
    Spells ('-' :: Nat.toDigits 10 n) (.number (-n)) := by
  have hread := readsAs_negative Nat.toDigits_ne_nil (isDigit_of_mem_toDigits (n := n))
  rwa [Text.digitsValue_toDigits (by decide) (by decide), Lexeme.decimal, if_pos h] at hread

theorem spells_hex {n : Nat} (h : n < UInt64.size) :
    Spells ('0' :: 'x' :: Text.hexDigits n) (.hexNumber n) := by
  have hne : Text.hexDigits n ≠ [] := Nat.toDigits_ne_nil
  have hvalue : Text.digitsValue 16 (Text.hexDigits n) = n := Text.digitsValue_toDigits (by decide) (by decide) n
  have hread := readsAs_hexadecimal hne fun c => Text.isHexDigit_of_mem_hexDigits
  rwa [hvalue, Lexeme.hexadecimal, if_pos h] at hread

theorem spells_string {body : List Char} {value : String}
    (hlength : ∀ rest, Spaced rest → Literal.literalLength? (body ++ rest) = some body.length)
    (hdecode : Literal.decode (String.ofList ('"' :: body)) = .ok value) :
    Spells ('"' :: body) (.string value (String.ofList ('"' :: body))) := by
  refine ⟨'"', body, rfl, fun rest hrest => ?_⟩
  rw [Lexeme.read_quote, Lexeme.string, hlength rest hrest]
  simp only [List.take_left, hdecode]

/-! ## The tokens that a text has -/

/-- What holds of every token that a text has: numbers fit into a machine word, names are words, a string is
written as it stands in the text, and a help body is that of some text. -/
def Token.Readable : Token → Prop
  | .number value => Text.inSignedRange 64 value = true
  | .hexNumber value => value < UInt64.size
  | .ident name => name ≠ "help" ∧ Token.ofWord name = .ident name ∧ ∃ c cs,
    name.toList = c :: cs ∧ c.isAlpha = true ∧ ∀ d ∈ cs, Lexeme.isWordChar d = true
  | .string value raw => ∃ body, raw = String.ofList ('"' :: body) ∧
    Literal.decode raw = .ok value ∧
      ∀ rest, Spaced rest → Literal.literalLength? (body ++ rest) = some body.length
  | .help body => ∃ text, (HelpBlock.read text).body = body
  | .keyword _ | .mark _ | .tristate _ => True

theorem readable_ofWord {c : Char} {cs : List Char} (hc : c.isAlpha = true)
    (hcs : ∀ d ∈ cs, Lexeme.isWordChar d = true) (hhelp : String.ofList (c :: cs) ≠ "help") :
    (Token.ofWord (String.ofList (c :: cs))).Readable := by
  unfold Token.ofWord
  split
  · trivial
  · trivial
  · rename_i hkeyword htristate
    refine ⟨hhelp, ?_, c, cs, String.toList_ofList, hc, hcs⟩
    rw [Token.ofWord, hkeyword, htristate]

theorem readable_of_word {c : Char} (hc : c.isAlpha = true) {cs : List Char} {t : Token}
    {extra : Nat} (h : Lexeme.word c cs = ⟨.token t, extra⟩) : t.Readable := by
  unfold Lexeme.word at h
  simp only at h
  split at h
  · cases h
    exact ⟨_, rfl⟩
  · rename_i hhelp
    cases h
    exact readable_ofWord hc (fun d hd => List.mem_takeWhile_imp hd) hhelp

theorem readable_of_decimal {value : Int} {t : Token} {extra extra' : Nat}
    (h : Lexeme.decimal value extra = ⟨.token t, extra'⟩) : t.Readable := by
  unfold Lexeme.decimal at h
  split at h
  · rename_i hrange
    cases h
    exact hrange
  · cases h

theorem readable_of_hexadecimal {value : Nat} {t : Token} {extra extra' : Nat}
    (h : Lexeme.hexadecimal value extra = ⟨.token t, extra'⟩) : t.Readable := by
  unfold Lexeme.hexadecimal at h
  split at h
  · rename_i hrange
    cases h
    exact hrange
  · cases h

theorem readable_of_number {c : Char} {cs : List Char} {t : Token} {extra : Nat}
    (h : Lexeme.number c cs = ⟨.token t, extra⟩) : t.Readable := by
  unfold Lexeme.number at h
  simp only at h
  split at h
  · split at h
    · exact readable_of_decimal h
    · exact readable_of_hexadecimal h
  · simp only [List.isEmpty_nil, if_true] at h
    exact readable_of_decimal h

theorem readable_of_dash {cs : List Char} {t : Token} {extra : Nat}
    (h : Lexeme.dash cs = ⟨.token t, extra⟩) : t.Readable := by
  unfold Lexeme.dash at h
  simp only at h
  split at h
  · exact readable_of_decimal h
  · split at h
    · cases h
      exact ⟨_, rfl⟩
    · cases h

theorem readable_of_string {cs : List Char} {t : Token} {extra : Nat}
    (h : Lexeme.string cs = ⟨.token t, extra⟩) : t.Readable := by
  unfold Lexeme.string at h
  split at h
  · cases h
  · rename_i n hn
    obtain ⟨hle, hstable⟩ := Literal.literalLength?_take_append hn
    simp only at h
    split at h
    · rename_i value hdecode
      cases h
      refine ⟨cs.take extra, rfl, hdecode, fun rest hrest => ?_⟩
      rw [hstable rest hrest, List.length_take_of_le hle]
    · cases h

/-- A token is a word, a number, something with dashes, a string or a mark, as its first character says. -/
theorem Lexeme.read_token_cases {c : Char} {cs : List Char} {t : Token} {extra : Nat}
    (h : read c cs = ⟨.token t, extra⟩) :
    (c.isAlpha = true ∧ word c cs = ⟨.token t, extra⟩) ∨ (c.isDigit = true ∧ number c cs = ⟨.token t, extra⟩) ∨
      (c = '-' ∧ dash cs = ⟨.token t, extra⟩) ∨ (c = '"' ∧ string cs = ⟨.token t, extra⟩) ∨
        mark c cs = ⟨.token t, extra⟩ := by
  unfold read at h
  split at h
  · cases h
  split at h
  · unfold backslash at h
    split at h <;> cases h
  split at h
  · cases h
  split at h
  · rename_i hc
    exact .inl ⟨hc, h⟩
  split at h
  · rename_i hc
    exact .inr (.inl ⟨hc, h⟩)
  split at h
  · rename_i hc
    exact .inr (.inr (.inl ⟨hc, h⟩))
  split at h
  · rename_i hc
    exact .inr (.inr (.inr (.inl ⟨hc, h⟩)))
  · exact .inr (.inr (.inr (.inr h)))

/-- Every token that is read is readable. -/
theorem readable_of_read {c : Char} {cs : List Char} {t : Token} {extra : Nat}
    (h : Lexeme.read c cs = ⟨.token t, extra⟩) : t.Readable := by
  rcases Lexeme.read_token_cases h with ⟨hc, h⟩ | ⟨-, h⟩ | ⟨-, h⟩ | ⟨-, h⟩ | h
  · exact readable_of_word hc h
  · exact readable_of_number h
  · exact readable_of_dash h
  · exact readable_of_string h
  · unfold Lexeme.mark at h
    split at h <;> cases h <;> trivial

/-- The text that a token keeps as it is written. -/
def Token.kept? : Token → Option String
  | .ident name => some name
  | .string _ raw => some raw
  | _ => none

/-- What a token keeps is what it is read from. -/
theorem Lexeme.kept_of_read {c : Char} {cs : List Char} {t : Token} {extra : Nat} {text : String}
    (h : read c cs = ⟨.token t, extra⟩) (ht : t.kept? = some text) : c :: cs.take extra = text.toList := by
  have hnone {value : Int} {n : Nat} (h : decimal value n = ⟨.token t, extra⟩) : t.kept? = none := by
    unfold decimal at h
    split at h <;> cases h
    rfl
  have hno (h : t.kept? = none) : c :: cs.take extra = text.toList :=
    absurd (h.symm.trans ht) (Option.some_ne_none _).symm
  rcases read_token_cases h with ⟨-, h⟩ | ⟨-, h⟩ | ⟨-, h⟩ | ⟨hc, h⟩ | h
  · unfold word at h
    simp only at h
    split at h
    · cases h
      exact hno rfl
    · obtain ⟨hkind, rfl⟩ := Lexeme.mk.inj h
      obtain rfl := LexemeKind.token.inj hkind
      unfold Token.ofWord at ht
      split at ht
      · exact absurd ht (Option.some_ne_none _).symm
      · exact absurd ht (Option.some_ne_none _).symm
      · rw [← Option.some.inj ht, String.toList_ofList]
        exact congrArg _ (List.prefix_iff_eq_take.mp (List.takeWhile_prefix _)).symm
  · unfold number hexadecimal at h
    simp only at h
    split at h
    · split at h
      · exact hno (hnone h)
      · split at h <;> cases h
        exact hno rfl
    · simp only [List.isEmpty_nil, if_true] at h
      exact hno (hnone h)
  · unfold dash at h
    simp only at h
    split at h
    · exact hno (hnone h)
    · split at h <;> cases h
      exact hno rfl
  · unfold string at h
    split at h
    · cases h
    · simp only at h
      split at h <;> cases h
      rw [← Option.some.inj ht, String.toList_ofList, hc]
  · unfold mark at h
    split at h <;> cases h <;> exact hno rfl

/-- The tokens that expressions are made of. -/
def Token.isOfExpr : Token → Bool
  | .keyword _ | .help _ => false
  | _ => true

theorem Token.toList_text_natural (n : Nat) : (Token.number n).text.toList = Nat.toDigits 10 n :=
  Nat.toList_repr

theorem Token.toList_text_negSucc (n : Nat) :
    (Token.number (Int.negSucc n)).text.toList = '-' :: Nat.toDigits 10 (n + 1) := by
  show ("-" ++ (n + 1).repr).toList = _
  rw [String.toList_append, Nat.toList_repr]
  rfl

theorem Token.toList_text_hexNumber (n : Nat) :
    (Token.hexNumber n).text.toList = '0' :: 'x' :: Text.hexDigits n := by
  simp [Token.text, Text.hexText]

/-- The tokens of expressions are spelled by their texts. -/
theorem spells_text {t : Token} (h : t.Readable) (hexpr : t.isOfExpr = true) :
    Spells t.text.toList t := by
  cases t with
  | keyword k => exact absurd hexpr Bool.false_ne_true
  | mark m => exact spells_mark m
  | tristate v =>
    cases v
    · have hword : Spells ['n'] (.ofWord (String.ofList ['n'])) :=
        spells_word (by decide) (List.forall_mem_nil _) (by decide)
      exact hword
    · have hword : Spells ['m'] (.ofWord (String.ofList ['m'])) :=
        spells_word (by decide) (List.forall_mem_nil _) (by decide)
      exact hword
    · have hword : Spells ['y'] (.ofWord (String.ofList ['y'])) :=
        spells_word (by decide) (List.forall_mem_nil _) (by decide)
      exact hword
  | help body => exact absurd hexpr Bool.false_ne_true
  | number v =>
    cases v with
    | ofNat n =>
      rw [Int.ofNat_eq_natCast, Token.toList_text_natural]
      exact spells_natural h
    | negSucc n =>
      rw [Token.toList_text_negSucc]
      exact spells_negative h
  | hexNumber v =>
    rw [Token.toList_text_hexNumber]
    exact spells_hex h
  | string value raw =>
    obtain ⟨body, rfl, hdecode, hlength⟩ := h
    show Spells (String.ofList ('"' :: body)).toList _
    rw [String.toList_ofList]
    exact spells_string hlength hdecode
  | ident name =>
    obtain ⟨hhelp, hword, c, cs, hname, hc, hcs⟩ := h
    show Spells name.toList _
    have hlist : String.ofList (c :: cs) = name := by rw [← hname, String.ofList_toList]
    rw [hname, ← hword, ← hlist]
    exact spells_word hc hcs (hlist ▸ hhelp)

/-! ## Streams -/

/-- What a lexeme is that is no gap. -/
def LexemeKind.ofContent : Except LexFailure Token → LexemeKind
  | .ok t => .token t
  | .error cause => .failure cause

namespace Cursor

theorem items_of_next?_eq_some {cur after : Cursor} {item : StreamItem}
    (h : cur.next? = some (item, after)) : cur.items = item :: after.items := by
  rw [items]
  split
  · rename_i hnone
    exact absurd (hnone.symm.trans h) (Option.some_ne_none _).symm
  · rename_i hsome
    obtain ⟨rfl, rfl⟩ := Prod.mk.inj (Option.some.inj (hsome.symm.trans h))
    rfl

theorem items_of_next?_eq_none {cur : Cursor} (h : cur.next? = none) : cur.items = [] := by
  rw [items]
  split
  · rfl
  · rename_i hsome
    exact absurd (h.symm.trans hsome) (Option.some_ne_none _).symm

theorem next?_of_nil {cur : Cursor} (h : cur.rest = []) : cur.next? = none := by
  rw [next?]
  split
  · rfl
  · rename_i hcons
    exact absurd (h.symm.trans hcons) (List.cons_ne_nil _ _).symm

theorem items_of_rest_eq_nil {cur : Cursor} (h : cur.rest = []) : cur.items = [] :=
  items_of_next?_eq_none (next?_of_nil h)

/-- What comes next is what the lexeme at the cursor says. -/
theorem next?_of_cons {cur : Cursor} {c : Char} {cs : List Char} (h : cur.rest = c :: cs) :
    cur.next? = match (Lexeme.read c cs).kind with
      | .gap => (cur.advance c cs (Lexeme.read c cs).extra).next?
      | .token t => some (⟨.ok (cur.settle t), c, cur.offset,
          (cur.advance c cs (Lexeme.read c cs).extra).offset⟩,
            { cur.advance c cs (Lexeme.read c cs).extra with gap := some [] })
      | .failure cause => some (⟨.error cause, c, cur.offset,
          (cur.advance c cs (Lexeme.read c cs).extra).offset⟩,
            cur.advance c cs (Lexeme.read c cs).extra) := by
  rw [next?]
  split
  · rename_i hnil
    exact absurd (hnil.symm.trans h) (List.cons_ne_nil _ _).symm
  · rename_i hcons
    obtain ⟨rfl, rfl⟩ := List.cons.inj (hcons.symm.trans h)
    rfl

theorem readable_settle (cur : Cursor) {t : Token} (h : t.Readable) : (cur.settle t).Readable := by
  unfold settle
  split
  · trivial
  · exact h

/-- Every token of a stream is readable. -/
theorem readable_of_next? {cur after : Cursor} {item : StreamItem} {t : Token}
    (h : cur.next? = some (item, after)) (ht : item.content = .ok t) : t.Readable := by
  fun_induction next? cur with
  | case1 => exact absurd h (Option.some_ne_none _).symm
  | case2 cur c cs hrest lexeme next hkind ih => exact ih h
  | case3 cur c cs hrest lexeme next u hkind =>
    obtain ⟨rfl, -⟩ := Prod.mk.inj (Option.some.inj h)
    obtain rfl : cur.settle u = t := Except.ok.inj ht
    have hread : Lexeme.read c cs = ⟨.token u, lexeme.extra⟩ := by rw [← hkind]
    exact cur.readable_settle (readable_of_read hread)
  | case4 cur c cs hrest lexeme next cause hkind =>
    obtain ⟨rfl, -⟩ := Prod.mk.inj (Option.some.inj h)
    exact absurd ht (by simp)

theorem readable_of_mem_items {cur : Cursor} {item : StreamItem} {t : Token} (h : item ∈ cur.items)
    (ht : item.content = .ok t) : t.Readable := by
  fun_induction items cur with
  | case1 => exact absurd h List.not_mem_nil
  | case2 cur item' after hnext ih =>
    rcases List.mem_cons.mp h with rfl | h
    · exact readable_of_next? hnext ht
    · exact ih h

/-- A cursor before some characters yields what they are read as. -/
theorem next?_of_readsAs {cur : Cursor} {cs rest : List Char} {content : Except LexFailure Token}
    (h : ReadsAs cs (.ofContent content)) (hexpr : ∀ t, content = .ok t → t.isOfExpr = true) (hrest : Spaced rest)
    (hcur : cur.rest = cs ++ rest) :
    ∃ item after, cur.next? = some (item, after) ∧ item.content = content ∧ after.rest = rest := by
  obtain ⟨c, ds, rfl, hread⟩ := h
  have hnext := next?_of_cons (hcur.trans List.cons_append)
  rw [hread rest hrest] at hnext
  cases content with
  | error cause => exact ⟨_, _, hnext, rfl, List.drop_left⟩
  | ok t =>
    refine ⟨_, _, hnext, ?_, List.drop_left⟩
    cases t with
    | keyword k => exact absurd (hexpr _ rfl) Bool.false_ne_true
    | _ => rfl

/-- A space before them changes nothing. -/
theorem next?_of_space {cur : Cursor} {cs rest : List Char} {content : Except LexFailure Token}
    (h : ReadsAs cs (.ofContent content)) (hexpr : ∀ t, content = .ok t → t.isOfExpr = true) (hrest : Spaced rest)
    (hcur : cur.rest = ' ' :: (cs ++ rest)) :
    ∃ item after, cur.next? = some (item, after) ∧ item.content = content ∧ after.rest = rest := by
  -- What is no gap does not begin with a space itself, so the gap before it is one space long.
  have hgap : Lexeme.read ' ' (cs ++ rest) = ⟨.gap, 0⟩ := by
    obtain ⟨c, ds, rfl, hread⟩ := h
    have hspace : Lexeme.isSpace c = false := by
      by_contra hc
      have hgap := hread [] (fun _ h => absurd h (Option.some_ne_none _).symm)
      rw [Lexeme.read, if_pos (by simpa using hc)] at hgap
      cases content <;> cases hgap
    rw [Lexeme.read, if_pos (by decide), List.cons_append, List.takeWhile_cons_of_neg (by simp [hspace])]
    rfl
  have hnext := next?_of_cons hcur
  rw [hgap] at hnext
  rw [hnext]
  exact next?_of_readsAs h hexpr hrest rfl

end Cursor

/-! ## Texts with spaces -/

/-- A piece of text and what a stream yields for it where a space follows. -/
structure IsPiece (piece : List Char × Except LexFailure Token) : Prop where
  readsAs : ReadsAs piece.1 (.ofContent piece.2)
  isOfExpr : ∀ t, piece.2 = .ok t → t.isOfExpr = true

/-- Pieces of text, with a space before each. -/
def spacedPieces (ps : List (List Char × Except LexFailure Token)) : List Char :=
  ps.flatMap fun p => ' ' :: p.1

theorem spaced_spacedPieces (ps : List (List Char × Except LexFailure Token)) : Spaced (spacedPieces ps) := by
  cases ps with
  | nil => exact fun _ h => absurd h (Option.some_ne_none _).symm
  | cons p ps => exact fun c h => (Option.some.inj h).symm

section Pieces

variable {p : List Char × Except LexFailure Token} {ps : List (List Char × Except LexFailure Token)}

/-- What a cursor yields before pieces that are written with spaces. -/
theorem contents_spacedPieces (hps : ∀ p ∈ ps, IsPiece p) {cur : Cursor} (hcur : cur.rest = spacedPieces ps) :
    cur.items.map (·.content) = ps.map (·.2) := by
  induction ps generalizing cur with
  | nil => rw [Cursor.items_of_rest_eq_nil hcur]; rfl
  | cons p ps ih =>
    obtain ⟨hp, hmore⟩ := List.forall_mem_cons.mp hps
    obtain ⟨item, after, hnext, hcontent, hafter⟩ :=
      Cursor.next?_of_space hp.readsAs hp.isOfExpr (spaced_spacedPieces ps) hcur
    rw [Cursor.items_of_next?_eq_some hnext, List.map_cons, hcontent, ih hmore hafter]
    rfl

/-- No space need stand before the first piece. -/
theorem contents_pieces (hps : ∀ q ∈ p :: ps, IsPiece q) {cur : Cursor} (hcur : cur.rest = p.1 ++ spacedPieces ps) :
    cur.items.map (·.content) = (p :: ps).map (·.2) := by
  obtain ⟨hp, hmore⟩ := List.forall_mem_cons.mp hps
  obtain ⟨item, after, hnext, hcontent, hafter⟩ :=
    Cursor.next?_of_readsAs hp.readsAs hp.isOfExpr (spaced_spacedPieces ps) hcur
  rw [Cursor.items_of_next?_eq_some hnext, List.map_cons, hcontent, contents_spacedPieces hmore hafter]
  rfl

end Pieces

/-- Some tokens with a space between each two. -/
def spacedText (ts : List Token) : String :=
  String.ofList ([' '].intercalate (ts.map (·.text.toList)))

/-- A token that is written as its text. -/
def Token.piece (t : Token) : List Char × Except LexFailure Token :=
  (t.text.toList, .ok t)

theorem isPiece_token {t : Token} (hread : t.Readable) (hexpr : t.isOfExpr = true) : IsPiece t.piece :=
  ⟨spells_text hread hexpr, fun _ h => Except.ok.inj h ▸ hexpr⟩

theorem toList_spacedText (t : Token) (ts : List Token) :
    (spacedText (t :: ts)).toList = t.text.toList ++ spacedPieces (ts.map Token.piece) := by
  rw [spacedText, String.toList_ofList]
  induction ts generalizing t with
  | nil => simp [spacedPieces, List.intercalate]
  | cons u us ih =>
    have hmore := ih u
    rw [List.map_cons] at hmore
    rw [List.map_cons, List.map_cons, List.intercalate_cons_cons, hmore]
    simp [spacedPieces, Token.piece]

/-- The tokens of a text in which spaces stand between the tokens. -/
theorem tokenize_spacedText {ts : List Token} (hts : ∀ t ∈ ts, t.Readable ∧ t.isOfExpr = true)
    (loc : Locator) :
    ∃ us, tokenize loc (spacedText ts).toList = .ok us ∧ us.map Lexed.token = ts := by
  refine tokenize_of_contents loc ?_
  cases ts with
  | nil =>
    rw [Cursor.items_of_rest_eq_nil rfl]
    rfl
  | cons t ts =>
    have hpieces : ∀ p ∈ t.piece :: ts.map Token.piece, IsPiece p := by
      rw [← List.map_cons, List.forall_mem_map]
      exact fun u hu => isPiece_token (hts u hu).1 (hts u hu).2
    have hcontents : (Cursor.ofChars (spacedText (t :: ts)).toList).items.map (·.content) =
        (t.piece :: ts.map Token.piece).map (·.2) := contents_pieces hpieces (toList_spacedText t ts)
    rw [hcontents, ← List.map_cons, List.map_map]
    rfl

/-- Every token of a text is readable. -/
theorem readable_of_tokenize {loc : Locator} {cs : List Char} {ts : List Lexed}
    (h : tokenize loc cs = .ok ts) : ∀ t ∈ ts, t.token.Readable := by
  intro t ht
  obtain ⟨item, hitem, hcontent⟩ := exists_item_of_mem h ht
  exact Cursor.readable_of_mem_items hitem hcontent

end KconfigLang
