import KconfigLang.Proofs.Token.Encoding

/-!
# Literals encoded again

Decoding undoes encoding. Encoding undoes decoding where the literal doubles quotes and writes everything else as
it is; a code point group is lost, because no encoded string holds one.

- `Literal.not_holdsGroup_encode`: no encoded string holds a group.
- `Literal.Closes.exists_encodeBody`: a literal without groups is an encoded string.
- `Literal.encode_eq_iff`: so the value of a literal is encoded to the literal itself exactly if that has no group.
- `encode_decode_inverse`: what follows for the string tokens of a text.
-/

namespace KconfigLang

namespace Literal

/-- No encoded string holds a group: behind a bracket it has two quotes or the closing one. -/
theorem not_holdsGroup_encode (n : Nat) (value : String) : ¬ HoldsGroup n (encode value).toList := by
  have hquote (cs : List Char) : HoldsGroup n (['"'] ++ cs) ↔ HoldsGroup n cs :=
    holdsGroup_append_iff (by decide)
  have hbody (vs : List Char) : ¬ HoldsGroup n (encodeBody vs ++ ['"']) := by
    induction vs with
    | nil =>
      intro h
      exact not_holdsGroup_nil ((hquote []).mp h)
    | cons v vs ih =>
      by_cases hv : v = '"'
      · subst hv
        rw [encodeBody_quote]
        intro h
        exact ih ((hquote _).mp ((hquote _).mp h))
      · rw [encodeBody_cons hv, List.cons_append]
        intro h
        exact ih ((holdsGroup_cons_iff (group?_encodeBody rfl v vs)).mp h)
  rw [toList_encode]
  intro h
  exact hbody value.toList ((hquote _).mp h)

theorem HoldsGroup.append_left {n : Nat} {cs : List Char} (h : HoldsGroup n cs) (ds : List Char) :
    HoldsGroup n (ds ++ cs) := by
  obtain ⟨digits, hlen, hdigits, hvalue, hinfix⟩ := h
  exact ⟨digits, hlen, hdigits, hvalue, hinfix.trans (List.suffix_append ds cs).isInfix⟩

/-- A literal without groups is an encoded string. The induction is on the pieces that the pattern of literals
cuts it into, so that no quote stands alone before the closing one. -/
theorem Closes.exists_encodeBody {w : List Char} (h : Closes w) (hgroup : ∀ n, ¬ HoldsGroup n w) :
    ∃ vs, w = encodeBody vs ++ ['"'] := by
  induction h with
  | close => exact ⟨[], rfl⟩
  | quote more ih =>
    obtain ⟨vs, rfl⟩ := ih fun n hn => hgroup n (hn.append_left ['"', '"'])
    exact ⟨'"' :: vs, by rw [encodeBody_quote]; rfl⟩
  | group hlen hhex more ih =>
    exact absurd ⟨_, hlen, hhex, rfl, (List.prefix_append _ _).isInfix⟩ (hgroup _)
  | @char c w hquote hnewline more ih =>
    obtain ⟨vs, rfl⟩ := ih fun n hn => hgroup n (hn.append_left [c])
    exact ⟨c :: vs, by rw [encodeBody_cons hquote]; rfl⟩

/-- The value of a literal is encoded to the literal itself exactly if that holds no group. -/
theorem encode_eq_iff {body : List Char} {value : String} (h : Closes body)
    (hdecode : decode (String.ofList ('"' :: body)) = .ok value) :
    encode value = String.ofList ('"' :: body) ↔ ∀ n, ¬ HoldsGroup n ('"' :: body) := by
  constructor
  · intro heq n hn
    rw [← String.toList_ofList (l := '"' :: body), ← heq] at hn
    exact not_holdsGroup_encode n value hn
  · intro hgroup
    obtain ⟨vs, rfl⟩ := h.exists_encodeBody fun n hn => hgroup n (hn.append_left ['"'])
    rw [← encode_ofList, decode_encode] at hdecode
    rw [← encode_ofList, Except.ok.inj hdecode]

end Literal

/-- **Encoding and decoding are inverse.** Every string is decoded from its encoded form. The value of a string
token, in whatever text it stands, is encoded to the literal as it is written exactly if that holds no code point
group. -/
theorem encode_decode_inverse :
    (∀ value, Literal.decode (Literal.encode value) = .ok value) ∧
      ∀ cs, ∀ item ∈ (Cursor.ofChars cs).items, ∀ value raw, item.content = .ok (.string value raw) →
        (Literal.encode value = raw ↔ ∀ n, ¬ Literal.HoldsGroup n raw.toList) := by
  refine ⟨Literal.decode_encode, fun cs item hitem value raw hcontent => ?_⟩
  obtain ⟨body, rfl, hcloses, hdecode⟩ := (Cursor.readable_of_mem_items hitem hcontent).exists_closes
  rw [String.toList_ofList]
  exact Literal.encode_eq_iff hcloses hdecode

end KconfigLang
