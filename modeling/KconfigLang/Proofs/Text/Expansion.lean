import KconfigLang.Text.Variables

/-!
# One pass over a text with variables

A text is scanned once from the left. Where a reference begins it is taken with the longest name that stands there and
replaced by what its variable stands for; every other character stays; and what was put in is behind the scan.

- `IsVariableName`: the names that a reference can have.
- `Piece.Fits`: a piece that is taken where some text follows.
- `reference?_eq_some_iff` and `reference?_eq_none_iff`: where a reference begins, and where none does.
- `pieces_eq_iff`: there is one way to scan a text.
- `Expands`: what becomes of a text in one pass.
- `expand_eq_iff` and `expand_flatMap`: expansion is that pass, and it goes piece by piece.
-/

namespace KconfigLang.Text

/-- A name of a variable: a letter or an underscore, and behind it letters, digits and underscores. -/
def IsVariableName (name : List Char) : Prop :=
  ∃ c cs, name = c :: cs ∧ isNameStart c = true ∧ ∀ d ∈ cs, isNameChar d = true

/-- No character of a name follows. -/
def EndsName (rest : List Char) : Prop :=
  ∀ c ∈ rest.head?, isNameChar c = false

namespace Piece

/-- A reference to a variable. -/
def IsReference : Piece → Prop
  | plain _ => False
  | bare name | parenthesised name | braced name => IsVariableName name

/-- A piece that is taken where `rest` follows: a reference, with all of its name if that is bare, or a character with
which no reference begins. -/
def Fits (rest : List Char) : Piece → Prop
  | plain c => ∀ p : Piece, p.IsReference → ¬ p.chars <+: c :: rest
  | bare name => IsVariableName name ∧ EndsName rest
  | parenthesised name | braced name => IsVariableName name

end Piece

/-! ## Names -/

theorem takeName?_eq_some_iff {cs name rest : List Char} :
    takeName? cs = some (name, rest) ↔ cs = name ++ rest ∧ IsVariableName name ∧ EndsName rest := by
  constructor
  · intro h
    cases cs with
    | nil => cases h
    | cons c cs =>
      rw [takeName?] at h
      split at h
      · rename_i hstart
        obtain ⟨rfl, rfl⟩ := Prod.mk.inj (Option.some.inj h)
        refine ⟨by simp, ⟨c, _, rfl, hstart, fun d hd =>
          List.all_eq_true.mp List.all_takeWhile d hd⟩, fun d hd => ?_⟩
        simpa [Option.mem_def.mp hd] using List.head?_dropWhile_not isNameChar cs
      · cases h
  · rintro ⟨rfl, ⟨c, cs, rfl, hstart, hname⟩, hrest⟩
    have hnone : rest.takeWhile isNameChar = [] ∧ rest.dropWhile isNameChar = rest := by
      cases rest with
      | nil => exact ⟨rfl, rfl⟩
      | cons d rest => simp [hrest d rfl]
    rw [List.cons_append, takeName?, if_pos hstart, List.takeWhile_append_of_pos hname,
      List.dropWhile_append_of_pos hname, hnone.1, hnone.2, List.append_nil]

/-- Where a name begins there is a longest one. -/
theorem exists_takeName? {name : List Char} (h : IsVariableName name) (rest : List Char) :
    ∃ name' rest', takeName? (name ++ rest) = some (name', rest') := by
  obtain ⟨c, cs, rfl, hstart, -⟩ := h
  exact ⟨_, _, by rw [List.cons_append, takeName?, if_pos hstart]⟩

theorem IsVariableName.ne_cons {name : List Char} (h : IsVariableName name) {c : Char}
    (hc : isNameStart c = false) (cs rest : List Char) : name ++ rest ≠ c :: cs := by
  obtain ⟨d, ds, rfl, hstart, -⟩ := h
  intro heq
  obtain ⟨rfl, -⟩ := List.cons.inj heq
  exact Bool.false_ne_true (hc.symm.trans hstart)

/-! ## References -/

theorem reference?_bare {name : List Char} (h : IsVariableName name) (rest : List Char) :
    reference? (name ++ rest) = (takeName? (name ++ rest)).map fun (name, rest) => (.bare name, rest) := by
  unfold reference?
  split
  · rename_i heq
    exact absurd heq (h.ne_cons (by decide) _ _)
  · rename_i heq
    exact absurd heq (h.ne_cons (by decide) _ _)
  · rfl

theorem reference?_eq_some_iff {cs rest : List Char} {p : Piece} :
    reference? cs = some (p, rest) ↔ p.IsReference ∧ p.Fits rest ∧ '$' :: cs = p.chars ++ rest := by
  constructor
  · intro h
    unfold reference? at h
    split at h
    · split at h
      · rename_i name rest' hname
        obtain ⟨rfl, rfl⟩ := Prod.mk.inj (Option.some.inj h)
        obtain ⟨rfl, hname, -⟩ := takeName?_eq_some_iff.mp hname
        exact ⟨hname, hname, by simp [Piece.chars]⟩
      · cases h
    · split at h
      · rename_i name rest' hname
        obtain ⟨rfl, rfl⟩ := Prod.mk.inj (Option.some.inj h)
        obtain ⟨rfl, hname, -⟩ := takeName?_eq_some_iff.mp hname
        exact ⟨hname, hname, by simp [Piece.chars]⟩
      · cases h
    · obtain ⟨⟨name, rest'⟩, hname, heq⟩ := Option.map_eq_some_iff.mp h
      obtain ⟨rfl, rfl⟩ := Prod.mk.inj heq
      obtain ⟨rfl, hname, hrest⟩ := takeName?_eq_some_iff.mp hname
      exact ⟨hname, ⟨hname, hrest⟩, rfl⟩
  · rintro ⟨hp, hfits, hcs⟩
    cases p with
    | plain c => exact hp.elim
    | bare name =>
      obtain rfl : cs = name ++ rest := (List.cons.inj hcs).2
      rw [reference?_bare hp, takeName?_eq_some_iff.mpr ⟨rfl, hfits⟩]
      rfl
    | parenthesised name =>
      obtain rfl : cs = '(' :: (name ++ ')' :: rest) := by simpa [Piece.chars] using hcs
      have hname : takeName? (name ++ ')' :: rest) = some (name, ')' :: rest) :=
        takeName?_eq_some_iff.mpr ⟨rfl, hp, fun c hc => by obtain rfl := Option.some.inj hc; decide⟩
      simp [reference?, hname]
    | braced name =>
      obtain rfl : cs = '\x7b' :: (name ++ '\x7d' :: rest) := by simpa [Piece.chars] using hcs
      have hname : takeName? (name ++ '\x7d' :: rest) = some (name, '\x7d' :: rest) :=
        takeName?_eq_some_iff.mpr ⟨rfl, hp, fun c hc => by obtain rfl := Option.some.inj hc; decide⟩
      simp [reference?, hname]

/-- Where some reference stands one is read, if not the same. -/
theorem exists_reference? {cs : List Char} {p : Piece} (hp : p.IsReference) (h : p.chars <+: '$' :: cs) :
    ∃ q rest, reference? cs = some (q, rest) := by
  obtain ⟨rest, hrest⟩ := h
  cases p with
  | plain c => exact hp.elim
  | bare name =>
    obtain rfl : name ++ rest = cs := (List.cons.inj hrest).2
    obtain ⟨name', rest', hname⟩ := exists_takeName? hp rest
    exact ⟨.bare name', rest', by rw [reference?_bare hp, hname]; rfl⟩
  | parenthesised name => exact ⟨_, _, reference?_eq_some_iff.mpr ⟨hp, hp, hrest.symm⟩⟩
  | braced name => exact ⟨_, _, reference?_eq_some_iff.mpr ⟨hp, hp, hrest.symm⟩⟩

theorem reference?_eq_none_iff {cs : List Char} :
    reference? cs = none ↔ (Piece.plain '$').Fits cs := by
  constructor
  · intro h p hp hbegins
    obtain ⟨q, rest, hq⟩ := exists_reference? hp hbegins
    cases h.symm.trans hq
  · intro h
    refine Option.eq_none_iff_forall_ne_some.mpr fun ⟨p, rest⟩ hsome => ?_
    obtain ⟨hp, -, hcs⟩ := reference?_eq_some_iff.mp hsome
    exact h p hp ⟨rest, hcs.symm⟩

/-- References begin with a dollar sign. -/
theorem fits_plain {c : Char} (h : c ≠ '$') (rest : List Char) : (Piece.plain c).Fits rest := by
  rintro p hp ⟨more, hmore⟩
  cases p with
  | plain d => exact hp
  | bare name | parenthesised name | braced name => exact h (List.cons.inj hmore).1.symm

/-! ## Scanning -/

/-- Pieces of which each is taken where those behind it follow. -/
def Separated : List Piece → Prop
  | [] => True
  | p :: ps => p.Fits (ps.flatMap Piece.chars) ∧ Separated ps

/-- A piece that is taken where it stands is scanned first. -/
theorem pieces_append {p : Piece} {rest : List Char} (h : p.Fits rest) :
    pieces (p.chars ++ rest) = p :: pieces rest := by
  -- All references begin with a dollar sign, and what is read there is told by `reference?_eq_some_iff`.
  have hreference (hp : p.IsReference) (hcs : ∃ cs, '$' :: cs = p.chars ++ rest) :
      pieces (p.chars ++ rest) = p :: pieces rest := by
    obtain ⟨cs, hcs⟩ := hcs
    rw [← hcs, pieces, if_pos rfl]
    split
    · rename_i q rest' hq
      obtain ⟨rfl, rfl⟩ := Prod.mk.inj (Option.some.inj (hq.symm.trans (reference?_eq_some_iff.mpr ⟨hp, h, hcs⟩)))
      rfl
    · rename_i hnone
      cases hnone.symm.trans (reference?_eq_some_iff.mpr ⟨hp, h, hcs⟩)
  cases p with
  | plain c =>
    show pieces (c :: rest) = _
    rw [pieces]
    split
    · rename_i hc
      subst hc
      split
      · rename_i q rest' hq
        cases hq.symm.trans (reference?_eq_none_iff.mpr h)
      · rfl
    · rfl
  | bare name => exact hreference h.1 ⟨_, rfl⟩
  | parenthesised name => exact hreference h ⟨_, rfl⟩
  | braced name => exact hreference h ⟨_, rfl⟩

/-- The pieces of a text make it up, and each is taken where it stands. -/
theorem pieces_spec (cs : List Char) : (pieces cs).flatMap Piece.chars = cs ∧ Separated (pieces cs) := by
  have hcons {p : Piece} {rest : List Char} (hp : p.Fits rest)
      (ih : (pieces rest).flatMap Piece.chars = rest ∧ Separated (pieces rest)) :
      (p :: pieces rest).flatMap Piece.chars = p.chars ++ rest ∧ Separated (p :: pieces rest) := by
    refine ⟨by rw [List.flatMap_cons, ih.1], ?_, ih.2⟩
    rw [ih.1]
    exact hp
  fun_induction pieces cs with
  | case1 => exact ⟨rfl, trivial⟩
  | case2 cs p rest hp ih =>
    obtain ⟨-, hfits, hcs⟩ := reference?_eq_some_iff.mp hp
    rw [hcs]
    exact hcons hfits ih
  | case3 cs hnone ih => exact hcons (reference?_eq_none_iff.mp hnone) ih
  | case4 c cs hc ih => exact hcons (fits_plain hc cs) ih

/-- There is one way to scan a text. -/
theorem pieces_eq_iff {cs : List Char} {ps : List Piece} :
    pieces cs = ps ↔ cs = ps.flatMap Piece.chars ∧ Separated ps := by
  constructor
  · rintro rfl
    exact ⟨(pieces_spec cs).1.symm, (pieces_spec cs).2⟩
  · rintro ⟨rfl, h⟩
    induction ps with
    | nil => rw [List.flatMap_nil, pieces]
    | cons p ps ih => rw [List.flatMap_cons, pieces_append h.1, ih h.2]

/-! ## Expansion -/

/-- What becomes of a text in one pass from the left, in which each piece that is taken is replaced and what it is
replaced by is not scanned. -/
inductive Expands (value : String → Option String) : List Char → List Char → Prop
  | nil : Expands value [] []
  | piece {p : Piece} {rest out : List Char} (h : p.Fits rest) (hrest : Expands value rest out) :
    Expands value (p.chars ++ rest) (p.expansion value ++ out)

theorem expands_iff {value : String → Option String} {cs out : List Char} :
    Expands value cs out ↔ (pieces cs).flatMap (Piece.expansion value) = out := by
  constructor
  · intro h
    induction h with
    | nil => rw [pieces, List.flatMap_nil]
    | piece h _ ih => rw [pieces_append h, List.flatMap_cons, ih]
  · rintro rfl
    obtain ⟨hcs, hseparated⟩ := pieces_spec cs
    generalize pieces cs = ps at hcs hseparated
    subst hcs
    induction ps with
    | nil => exact .nil
    | cons p ps ih => exact .piece hseparated.1 (ih hseparated.2)

/-- Expansion is one pass from the left. -/
theorem expand_eq_iff {value : String → Option String} {s out : String} :
    expand value s = out ↔ Expands value s.toList out.toList := by
  rw [expands_iff, expand, ← String.toList_inj, String.toList_ofList]

/-- A piece that is taken somewhere is taken where nothing follows. -/
theorem Piece.Fits.alone {p : Piece} {rest : List Char} (h : p.Fits rest) : p.Fits [] := by
  cases p with
  | plain c => exact fun q hq hbegins => h q hq (hbegins.trans ⟨rest, rfl⟩)
  | bare name => exact ⟨h.1, fun _ hc => absurd hc (Option.not_mem_none _)⟩
  | parenthesised name | braced name => exact h

theorem expand_chars {p : Piece} (h : p.Fits []) (value : String → Option String) :
    expand value (String.ofList p.chars) = String.ofList (p.expansion value) := by
  have hpieces : pieces p.chars = [p] := by
    have happend := pieces_append h
    rwa [List.append_nil, pieces] at happend
  rw [expand, String.toList_ofList, hpieces, List.flatMap_singleton]

/-- Pieces that are taken one behind the other are expanded one behind the other. -/
theorem expand_flatMap {ps : List Piece} (h : Separated ps) (value : String → Option String) :
    expand value (String.ofList (ps.flatMap Piece.chars)) =
      String.join (ps.map fun p => expand value (String.ofList p.chars)) := by
  have hchars : ∀ p ∈ ps, expand value (String.ofList p.chars) = String.ofList (p.expansion value) := by
    induction ps with
    | nil => exact List.forall_mem_nil _
    | cons p ps ih => exact List.forall_mem_cons.mpr ⟨expand_chars h.1.alone value, ih h.2⟩
  rw [List.map_congr_left hchars, expand, String.toList_ofList, pieces_eq_iff.mpr ⟨rfl, h⟩]
  clear h hchars
  induction ps with
  | nil => rfl
  | cons p ps ih => simp [List.flatMap_cons, ih]

end KconfigLang.Text
