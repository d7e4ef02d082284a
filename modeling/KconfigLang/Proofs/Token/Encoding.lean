import KconfigLang.Proofs.Token.Layout
import KconfigLang.Proofs.Token.LineLocal

/-!
# Encoded strings

An encoded string is decoded to itself, and it is read as one literal unless it holds a newline: every character
is written as it is, and no literal goes over the end of its line. A literal can stand for a string with a newline
by a code point group.

- `Literal.decode_encode`: an encoded string is decoded to itself.
- `Literal.HoldsGroup`: a literal holds a group with a given code point.
- `newline_mem_iff`: a literal stands for a string with a newline if it holds a group for it.
- `tokenize_encode`: the token of an encoded string without newlines.
- `tokenize_encode_newline`: with a newline it is cut off there.
- `tokenize_encode_string`: what becomes of the strings of a text.
-/

namespace KconfigLang

namespace Literal

/-! ## Encoded characters -/

theorem encodeBody_quote (cs : List Char) : encodeBody ('"' :: cs) = '"' :: '"' :: encodeBody cs :=
  if_pos rfl

theorem encodeBody_cons {c : Char} (h : c ≠ '"') (cs : List Char) :
    encodeBody (c :: cs) = c :: encodeBody cs :=
  if_neg h

theorem encodeBody_append (cs ds : List Char) : encodeBody (cs ++ ds) = encodeBody cs ++ encodeBody ds := by
  induction cs with
  | nil => rfl
  | cons c cs ih =>
    by_cases hc : c = '"'
    · subst hc
      rw [List.cons_append, encodeBody_quote, encodeBody_quote, ih]
      rfl
    · rw [List.cons_append, encodeBody_cons hc, encodeBody_cons hc, ih]
      rfl

theorem encodeBody_of_not_mem {cs : List Char} (h : '"' ∉ cs) : encodeBody cs = cs := by
  induction cs with
  | nil => rfl
  | cons c cs ih =>
    rw [List.mem_cons, not_or] at h
    rw [encodeBody_cons (Ne.symm h.1), ih h.2]

theorem encode_ofList (cs : List Char) :
    encode (String.ofList cs) = String.ofList ('"' :: (encodeBody cs ++ ['"'])) := by
  rw [encode, String.toList_ofList]
  rfl

/-- Behind a bracket a quote is doubled, and so it opens no group. -/
theorem group?_encodeBody {more : List Char} (hmore : group? ('[' :: more) = none) (c : Char)
    (cs : List Char) : group? (c :: (encodeBody cs ++ more)) = none := by
  refine Option.eq_none_iff_forall_ne_some.mpr fun digits hgroup => ?_
  obtain ⟨hlen, hdigits, hprefix⟩ := group?_eq_some_iff.mp hgroup
  obtain ⟨d, ds, rfl⟩ : ∃ d ds, digits = d :: ds := List.exists_cons_of_length_pos (by omega)
  obtain ⟨rfl, hrest⟩ := List.cons_prefix_cons.mp hprefix
  cases cs with
  | nil => exact absurd (hmore.symm.trans hgroup) (Option.some_ne_none _).symm
  | cons e es =>
    by_cases he : e = '"'
    · subst he
      rw [encodeBody_quote] at hrest
      obtain ⟨rfl, -⟩ := List.cons_prefix_cons.mp (List.cons_prefix_cons.mp hrest).2
      exact absurd (hdigits '"' List.mem_cons_self) (by decide)
    · rw [encodeBody_cons he] at hrest
      exact he (List.cons_prefix_cons.mp hrest).1.symm

/-! ## Decoding -/

theorem decodeBody_of_group_eq_none {c : Char} {cs : List Char} (hquote : c ≠ '"')
    (h : group? (c :: cs) = none) : decodeBody (c :: cs) = (decodeBody cs).map (c :: ·) := by
  rw [decodeBody]
  · simp only [h]
  · exact fun _ hc => absurd hc hquote

theorem decodeBody_encodeBody (cs : List Char) : decodeBody (encodeBody cs) = .ok cs := by
  induction cs with
  | nil => rw [encodeBody, decodeBody]
  | cons c cs ih =>
    by_cases hc : c = '"'
    · subst hc
      rw [encodeBody_quote, decodeBody, ih]
      rfl
    · have hgroup : group? (c :: (encodeBody cs ++ [])) = none := group?_encodeBody rfl c cs
      rw [List.append_nil] at hgroup
      rw [encodeBody_cons hc, decodeBody_of_group_eq_none hc hgroup, ih]
      rfl

/-- An encoded string is decoded to itself. -/
theorem decode_encode (value : String) : decode (encode value) = .ok value := by
  unfold decode encode
  rw [String.toList_ofList, List.cons_append]
  simp only [List.getLast?_concat, if_true, List.dropLast_concat, decodeBody_encodeBody,
    String.ofList_toList]

/-! ## Groups -/

/-- A literal holds a group with the given code point. -/
def HoldsGroup (n : Nat) (raw : List Char) : Prop :=
  ∃ digits, (digits.length = 4 ∨ digits.length = 6 ∨ digits.length = 8) ∧
    (∀ d ∈ digits, Text.isUpperHexDigit d = true) ∧ Text.digitsValue 16 digits = n ∧
      groupText digits <:+: raw

variable {n : Nat} {cs ds : List Char}

theorem not_holdsGroup_nil : ¬ HoldsGroup n [] := by
  rintro ⟨digits, -, -, -, hinfix⟩
  exact absurd (List.infix_nil.mp hinfix) (List.cons_ne_nil _ _)

/-- A group is not found in front of a bracket. -/
theorem holdsGroup_append_iff (h : '[' ∉ ds) : HoldsGroup n (ds ++ cs) ↔ HoldsGroup n cs := by
  induction ds with
  | nil => rfl
  | cons d ds ih =>
    rw [List.mem_cons, not_or] at h
    rw [← ih h.2]
    refine exists_congr fun digits => and_congr_right fun _ => and_congr_right fun _ =>
      and_congr_right fun _ => ?_
    rw [List.cons_append, List.infix_cons_iff, or_iff_right]
    intro hprefix
    exact h.1 (List.cons_prefix_cons.mp hprefix).1

theorem holdsGroup_cons_iff {c : Char} (h : group? (c :: cs) = none) :
    HoldsGroup n (c :: cs) ↔ HoldsGroup n cs := by
  refine exists_congr fun digits => and_congr_right fun hlen => and_congr_right fun hdigits =>
    and_congr_right fun _ => ?_
  rw [List.infix_cons_iff, or_iff_right]
  intro hprefix
  exact absurd (h.symm.trans (group?_eq_some_iff.mpr ⟨hlen, hdigits, hprefix⟩)) (Option.some_ne_none _).symm

theorem holdsGroup_groupText_iff {digits : List Char} (h : group? (groupText digits ++ cs) = some digits) :
    HoldsGroup n (groupText digits ++ cs) ↔ Text.digitsValue 16 digits = n ∨ HoldsGroup n cs := by
  obtain ⟨hlen, hdigits, -⟩ := group?_eq_some_iff.mp h
  have hbracket : '[' ∉ '"' :: (digits ++ ['"', ']']) := by
    rw [List.mem_cons, List.mem_append, not_or, not_or]
    refine ⟨by decide, fun hmem => ?_, by decide⟩
    exact absurd (hdigits '[' hmem) (by decide)
  have hbehind : HoldsGroup n ('"' :: (digits ++ ['"', ']']) ++ cs) ↔ HoldsGroup n cs :=
    holdsGroup_append_iff hbracket
  have htext : groupText digits ++ cs = '[' :: ('"' :: (digits ++ ['"', ']']) ++ cs) := rfl
  constructor
  · rintro ⟨digits', hlen', hdigits', hvalue, hinfix⟩
    rw [htext, List.infix_cons_iff, ← htext] at hinfix
    rcases hinfix with hprefix | hinfix
    · have hsame := h.symm.trans (group?_eq_some_iff.mpr ⟨hlen', hdigits', hprefix⟩)
      exact .inl (Option.some.inj hsame ▸ hvalue)
    · exact .inr (hbehind.mp ⟨digits', hlen', hdigits', hvalue, hinfix⟩)
  · rintro (hvalue | hmore)
    · exact ⟨digits, hlen, hdigits, hvalue, (List.prefix_append _ _).isInfix⟩
    · obtain ⟨digits', hlen', hdigits', hvalue, hinfix⟩ := hbehind.mpr hmore
      exact ⟨digits', hlen', hdigits', hvalue, htext ▸ List.infix_cons hinfix⟩

theorem holdsGroup_concat_iff : HoldsGroup n (cs ++ ['"']) ↔ HoldsGroup n cs := by
  refine exists_congr fun digits => and_congr_right fun _ => and_congr_right fun _ =>
    and_congr_right fun _ => ?_
  rw [List.infix_concat_iff, or_iff_right]
  intro hsuffix
  -- A group ends with a bracket.
  have hlast : (cs ++ ['"']).getLast? = some ']' := by
    obtain ⟨before, hbefore⟩ := hsuffix
    rw [← hbefore, List.getLast?_append]
    simp [groupText, List.getLast?_cons, List.getLast?_append]
  rw [List.getLast?_concat] at hlast
  exact absurd (Option.some.inj hlast) (by decide)

/-- A character that is not written itself comes from a group. -/
theorem mem_decodeBody_iff {vs : List Char} {c : Char} (h : decodeBody cs = .ok vs) (hc : c ∉ cs) :
    c ∈ vs ↔ HoldsGroup c.toNat cs := by
  fun_induction decodeBody cs generalizing vs with
  | case1 =>
    cases h
    exact iff_of_false List.not_mem_nil not_holdsGroup_nil
  -- two quotes
  | case2 cs ih =>
    simp only [List.mem_cons, not_or] at hc
    have hquotes : HoldsGroup c.toNat (['"', '"'] ++ cs) ↔ HoldsGroup c.toNat cs :=
      holdsGroup_append_iff (by decide)
    cases hcs : decodeBody cs with
    | error e => rw [hcs] at h; cases h
    | ok us =>
      rw [hcs] at h
      cases h
      rw [List.mem_cons, or_iff_right hc.1, ih hcs hc.2.2]
      exact hquotes.symm
  -- a group
  | case3 d cs hquote digits hgroup e hscalar ih =>
    obtain ⟨-, -, rest, hsplit⟩ := group?_eq_some_iff.mp hgroup
    have hdrop : (d :: cs).drop (groupLength digits) = rest := by
      rw [← hsplit, List.drop_left' (length_groupText digits)]
    rw [hdrop] at h ih
    rw [← hsplit] at hgroup hc ⊢
    rw [List.mem_append, not_or] at hc
    cases hrest : decodeBody rest with
    | error e => rw [hrest] at h; cases h
    | ok us =>
      rw [hrest] at h
      cases h
      rw [List.mem_cons, ih hrest hc.2, holdsGroup_groupText_iff hgroup, ← Text.scalar?_eq_some_iff.mp hscalar]
      exact or_congr_left ⟨fun heq => heq ▸ rfl, fun heq => (Char.toNat_inj.mp heq).symm⟩
  | case4 => cases h
  -- any other character
  | case5 d cs hquote hgroup ih =>
    rw [List.mem_cons, not_or] at hc
    cases hcs : decodeBody cs with
    | error e => rw [hcs] at h; cases h
    | ok us =>
      rw [hcs] at h
      cases h
      rw [List.mem_cons, or_iff_right hc.1, ih hcs hc.2, holdsGroup_cons_iff hgroup]

end Literal

/-- The literal of a token is what the pattern of literals says. -/
theorem Token.Readable.exists_closes {value raw : String} (h : (Token.string value raw).Readable) :
    ∃ body, raw = String.ofList ('"' :: body) ∧ Literal.Closes body ∧ Literal.decode raw = .ok value := by
  obtain ⟨body, hraw, hdecode, hlength⟩ := h
  have hspan := hlength [] fun _ h => absurd h (Option.not_mem_none _)
  rw [List.append_nil] at hspan
  have hcloses := Literal.closes_of_literalLength? hspan
  rw [List.take_length] at hcloses
  exact ⟨body, hraw, hcloses, hdecode⟩

/-- A literal stands for a string with a newline if it holds a group for it. -/
theorem newline_mem_iff {value raw : String} (h : (Token.string value raw).Readable) :
    '\n' ∈ value.toList ↔ Literal.HoldsGroup 10 raw.toList := by
  obtain ⟨body, rfl, hcloses, hdecode⟩ := h.exists_closes
  obtain ⟨inner, rfl⟩ := List.getLast?_eq_some_iff.mp hcloses.getLast?
  unfold Literal.decode at hdecode
  rw [String.toList_ofList] at hdecode ⊢
  simp only [List.getLast?_concat, if_true, List.dropLast_concat] at hdecode
  split at hdecode
  · rename_i vs hvs
    have hline : '\n' ∉ inner := fun hmem => hcloses.not_mem_newline (List.mem_append_left _ hmem)
    have hquote : Literal.HoldsGroup 10 (['"'] ++ (inner ++ ['"'])) ↔ Literal.HoldsGroup 10 (inner ++ ['"']) :=
      Literal.holdsGroup_append_iff (by decide)
    rw [← Except.ok.inj hdecode, String.toList_ofList, Literal.mem_decodeBody_iff hvs hline,
      ← Literal.holdsGroup_concat_iff]
    exact hquote.symm
  · exact absurd hdecode (by simp)

/-! ## Where an encoded string ends -/

namespace Literal

variable {cs more : List Char}

/-- An encoded text goes on to where what stands behind it closes. -/
theorem literalLength?_encodeBody {n : Nat} (hcs : '\n' ∉ cs) (hmore : literalLength? more = some n)
    (hgroup : group? ('[' :: more) = none) :
    literalLength? (encodeBody cs ++ more) = some ((encodeBody cs).length + n) := by
  induction cs with
  | nil => rw [encodeBody, List.nil_append, hmore, List.length_nil, Nat.zero_add]
  | cons c cs ih =>
    rw [List.mem_cons, not_or] at hcs
    by_cases hc : c = '"'
    · subst hc
      rw [encodeBody_quote, List.cons_append, List.cons_append, literalLength?, ih hcs.2]
      exact congrArg some (by simp only [List.length_cons]; omega)
    · rw [encodeBody_cons hc, List.cons_append,
        literalLength?_of_group_eq_none hc (Ne.symm hcs.1) (group?_encodeBody hgroup c cs), ih hcs.2]
      exact congrArg some (by simp only [List.length_cons]; omega)

/-- A literal closes with a quote. -/
theorem literalLength?_eq_none (h : '"' ∉ cs) : literalLength? cs = none := by
  refine Option.eq_none_iff_forall_ne_some.mpr fun n hn => ?_
  exact h (List.mem_of_mem_take (closes_of_literalLength? hn).mem_quote)

end Literal

namespace Lexeme

/-- An encoded string is one lexeme. -/
theorem string_encode {value : List Char} (h : '\n' ∉ value) :
    string (Literal.encodeBody value ++ ['"']) =
      ⟨.token (.string (String.ofList value) (Literal.encode (String.ofList value))),
        (Literal.encodeBody value ++ ['"']).length⟩ := by
  have hclose : Literal.literalLength? ['"'] = some 1 := Literal.literalLength?_of_closed nofun
  have hlength := Literal.literalLength?_encodeBody h hclose rfl
  have hlast : (Literal.encodeBody value).length + 1 = (Literal.encodeBody value ++ ['"']).length := by
    rw [List.length_append]
    rfl
  unfold string
  simp only [hlength, hlast, List.take_length, ← Literal.encode_ofList, Literal.decode_encode]

/-- What stands between the last quote and a newline is no lexeme. -/
theorem string_unterminated {line : List Char} (h : '"' ∉ line) (more : List Char) :
    ∃ extra, string (line ++ '\n' :: more) = ⟨.failure .unterminatedString, extra⟩ := by
  rw [string_newline, string, Literal.literalLength?_eq_none h]
  exact ⟨_, rfl⟩

/-- Where no quote stands between a doubled quote and a newline, an encoded string ends with the first of the
two. -/
theorem string_encode_append {first line : List Char} (hfirst : '\n' ∉ first) (hline : '"' ∉ line)
    (more : List Char) : ∃ token,
      string (Literal.encodeBody first ++ ['"'] ++ '"' :: (line ++ '\n' :: more)) =
        ⟨.token token, (Literal.encodeBody first ++ ['"']).length⟩ := by
  have hcut : Literal.literalLength? ('"' :: '"' :: (line ++ '\n' :: more)) = some 1 := by
    rw [Literal.literalLength?, Literal.literalLength?_newline, Literal.literalLength?_eq_none hline]
  have hlength : Literal.literalLength? (Literal.encodeBody first ++ ['"'] ++ '"' :: (line ++ '\n' :: more)) =
      some (Literal.encodeBody first ++ ['"']).length := by
    rw [List.append_assoc, List.length_append]
    exact Literal.literalLength?_encodeBody hfirst hcut rfl
  unfold string
  simp only [hlength, List.take_left, ← Literal.encode_ofList, Literal.decode_encode]
  exact ⟨_, rfl⟩

end Lexeme

/-! ## Reading an encoded string -/

theorem toList_encode (value : String) :
    (Literal.encode value).toList = '"' :: (Literal.encodeBody value.toList ++ ['"']) := by
  rw [Literal.encode, String.toList_ofList]
  rfl

/-- An encoded string without newlines is one token. -/
theorem tokenize_encode (loc : Locator) {value : String} (h : '\n' ∉ value.toList) :
    tokenize loc (Literal.encode value).toList = .ok [⟨.string value (Literal.encode value),
      loc.span 0 (Text.byteLength (Literal.encode value).toList)⟩] := by
  have hread : Lexeme.read '"' (Literal.encodeBody value.toList ++ ['"']) =
      ⟨.token (.string value (Literal.encode value)), (Literal.encodeBody value.toList ++ ['"']).length⟩ := by
    have hstring := Lexeme.string_encode h
    rwa [String.ofList_toList] at hstring
  have hrest : (Cursor.ofChars (Literal.encode value).toList).rest =
      '"' :: (Literal.encodeBody value.toList ++ ['"']) := toList_encode value
  have hnext := Cursor.next?_of_cons hrest
  rw [hread] at hnext
  rw [tokenize, Cursor.items_of_next?_eq_some hnext, Cursor.items_of_rest_eq_nil List.drop_length]
  simp only [Cursor.advance, Cursor.ofChars, List.take_length, toList_encode, Nat.zero_add]
  rfl

/-- At a quote that no other one follows on its line the stream has a failure. -/
theorem Cursor.mapM_items_unterminated (loc : Locator) {cur : Cursor} {line more : List Char}
    (hline : '"' ∉ line) (hrest : cur.rest = '"' :: (line ++ '\n' :: more)) :
    ∃ span, cur.items.mapM (·.locate loc) = .error ⟨.unterminatedString, span, none⟩ := by
  obtain ⟨extra, hread⟩ := Lexeme.string_unterminated hline more
  have hnext := next?_of_cons hrest
  rw [Lexeme.read_quote, hread] at hnext
  rw [items_of_next?_eq_some hnext, List.mapM_cons]
  exact ⟨_, rfl⟩

/-- The last of some equal elements in a list. -/
theorem exists_last_of_mem {α : Type} [DecidableEq α] {a : α} {xs : List α} (h : a ∈ xs) :
    ∃ ys zs, xs = ys ++ a :: zs ∧ a ∉ zs := by
  obtain ⟨zs, ys, hsplit, hzs⟩ := List.eq_append_cons_of_mem (List.mem_reverse.mpr h)
  refine ⟨ys.reverse, zs.reverse, ?_, fun hmem => hzs (List.mem_reverse.mp hmem)⟩
  rw [← List.reverse_reverse xs, hsplit, List.reverse_append, List.reverse_cons, List.append_assoc]
  rfl

/-- An encoded string with a newline is cut off there, and no token ends before the newline. -/
theorem tokenize_encode_newline (loc : Locator) {value : String} (h : '\n' ∈ value.toList) :
    ∃ span, tokenize loc (Literal.encode value).toList = .error ⟨.unterminatedString, span, none⟩ := by
  obtain ⟨line, more, hvalue, hline⟩ := List.eq_append_cons_of_mem h
  have htext : (Literal.encode value).toList =
      '"' :: (Literal.encodeBody line ++ '\n' :: (Literal.encodeBody more ++ ['"'])) := by
    rw [toList_encode, hvalue, Literal.encodeBody_append, Literal.encodeBody_cons (by decide), List.append_assoc]
    rfl
  by_cases hquote : '"' ∈ line
  · -- The last quote of the line is doubled: its first half ends a literal, and its second half begins another.
    obtain ⟨first, last, rfl, hlast⟩ := exists_last_of_mem hquote
    have hfirst : '\n' ∉ first := fun hmem => hline (List.mem_append_left _ hmem)
    obtain ⟨token, hread⟩ := Lexeme.string_encode_append hfirst hlast (Literal.encodeBody more ++ ['"'])
    have hrest : (Cursor.ofChars (Literal.encode value).toList).rest = [] ++ ('"' ::
        (Literal.encodeBody first ++ ['"']) ++ '"' :: (last ++ '\n' :: (Literal.encodeBody more ++ ['"']))) := by
      show (Literal.encode value).toList = _
      rw [htext, Literal.encodeBody_append, Literal.encodeBody_quote, Literal.encodeBody_of_not_mem hlast]
      simp
    obtain ⟨item, after, hnext, hcontent, hafter, -⟩ :=
      Cursor.next?_of_read (List.forall_mem_nil _) (by decide) ((Lexeme.read_quote _).trans hread) hrest
    obtain ⟨span, hbehind⟩ := Cursor.mapM_items_unterminated loc hlast hafter
    refine ⟨span, ?_⟩
    rw [tokenize, Cursor.items_of_next?_eq_some hnext, List.mapM_cons, hbehind, StreamItem.locate, hcontent]
    rfl
  · rw [Literal.encodeBody_of_not_mem hquote] at htext
    exact Cursor.mapM_items_unterminated loc hquote htext

/-- **Encoded strings are read back** unless they hold a newline: where a text has a string token, its value,
encoded, is one string token with the same value if the token holds no group for a newline; and if it holds one,
the encoded value is an unterminated string. -/
theorem tokenize_encode_string {loc : Locator} {cs : List Char} {ts : List Lexed} {value raw : String}
    {span : Span} (h : tokenize loc cs = .ok ts) (hmem : ⟨.string value raw, span⟩ ∈ ts) (loc' : Locator) :
    (¬ Literal.HoldsGroup 10 raw.toList → tokenize loc' (Literal.encode value).toList =
      .ok [⟨.string value (Literal.encode value),
        loc'.span 0 (Text.byteLength (Literal.encode value).toList)⟩]) ∧
    (Literal.HoldsGroup 10 raw.toList → ∃ place, tokenize loc' (Literal.encode value).toList =
      .error ⟨.unterminatedString, place, none⟩) := by
  have hiff := newline_mem_iff (readable_of_tokenize h _ hmem)
  constructor
  · intro hgroup
    exact tokenize_encode loc' (mt hiff.mp hgroup)
  · intro hgroup
    exact tokenize_encode_newline loc' (hiff.mpr hgroup)

/-- A literal with doubled quotes where a group would have single ones, and one with two groups. -/
def bracketText : List Char :=
  "\"[\"\"0041\"\"]\" \"[\"0022\"][\"000000C4\"]\"".toList

/-- Their tokens. -/
def bracketTokens : List Lexed :=
  [⟨.string "[\"0041\"]" "\"[\"\"0041\"\"]\"", ⟨.root, 0, 12, 1, 1⟩⟩,
    ⟨.string "\"Ä" "\"[\"0022\"][\"000000C4\"]\"", ⟨.root, 13, 35, 1, 14⟩⟩]

/-- The second one is encoded without its groups. -/
theorem tokenize_encode_bracketText : tokenize (.ofChars .root bracketText) bracketText = .ok bracketTokens ∧
    tokenize (.ofChars .root "\"\"\"Ä\"".toList) "\"\"\"Ä\"".toList =
      .ok [⟨.string "\"Ä" "\"\"\"Ä\"", ⟨.root, 0, 6, 1, 1⟩⟩] := by
  have htokens : tokenize (.ofChars .root bracketText) bracketText = .ok bracketTokens := by decide +kernel
  have hmem : ⟨.string "\"Ä" "\"[\"0022\"][\"000000C4\"]\"", ⟨.root, 13, 35, 1, 14⟩⟩ ∈ bracketTokens := by
    simp [bracketTokens]
  have hgroup := mt (newline_mem_iff (readable_of_tokenize htokens _ hmem)).mpr (by decide)
  have hencode : Literal.encode "\"Ä" = "\"\"\"Ä\"" := by decide +kernel
  have hread := (tokenize_encode_string htokens hmem (.ofChars .root "\"\"\"Ä\"".toList)).1 hgroup
  rw [hencode] at hread
  exact ⟨htokens, hread⟩

/-- A literal with a group for a newline. -/
def newlineText : List Char :=
  "\"a[\"000A\"]b\"".toList

/-- What it stands for is not read back. -/
theorem newlineText_not_read_back :
    tokenize (.ofChars .root newlineText) newlineText =
      .ok [⟨.string "a\nb" "\"a[\"000A\"]b\"", ⟨.root, 0, 12, 1, 1⟩⟩] ∧
    ∀ raw span, tokenize (.ofChars .root (Literal.encode "a\nb").toList) (Literal.encode "a\nb").toList ≠
      .ok [⟨.string "a\nb" raw, span⟩] := by
  have hcut : tokenize (.ofChars .root (Literal.encode "a\nb").toList) (Literal.encode "a\nb").toList =
      .error ⟨.unterminatedString, ⟨.root, 0, 2, 1, 1⟩, none⟩ := by decide +kernel
  refine ⟨by decide +kernel, fun raw span => ?_⟩
  rw [hcut]
  exact nofun

end KconfigLang
