import KconfigLang.Proofs.Text.Quoted
import KconfigLang.Tree.SExpr

/-!
# Texts of S-expressions

The text of an S-expression says which one it is, as long as its words are words: not empty, and without
white space, parentheses and quotes.

- `SExpr.IsClean`: all words of an S-expression are words.
- `render_append_inj`: two texts that start alike are texts of the same S-expression.
- `render_injective`: S-expressions with the same text are the same.
-/

namespace KconfigLang.SExpr

/-- Whether a character may stand in a word. -/
def isWordChar (c : Char) : Bool :=
  !Text.isWhiteSpace c && c != '(' && c != ')' && c != '"'

/-- Some characters make up a word. -/
def IsWord (text : String) : Prop :=
  text.toList ≠ [] ∧ ∀ c ∈ text.toList, isWordChar c = true

instance (text : String) : Decidable (IsWord text) :=
  decidable_of_iff (text.toList ≠ [] ∧ text.toList.all isWordChar = true) (by rw [IsWord, List.all_eq_true])

mutual

/-- The words and heads of an S-expression are words. -/
def IsClean : SExpr → Prop
  | word text => IsWord text
  | quoted _ => True
  | list head items => IsWord head ∧ AllClean items

/-- The words and heads of some S-expressions are words. -/
def AllClean : List SExpr → Prop
  | [] => True
  | e :: es => e.IsClean ∧ AllClean es

end

theorem allClean_iff (es : List SExpr) : AllClean es ↔ ∀ e ∈ es, e.IsClean := by
  induction es with
  | nil => simp [AllClean]
  | cons e es ih => simp [AllClean, ih]

/-! ## What follows -/

/-- What may stand behind an S-expression: the end, a space or the end of a list. -/
def Stops (rest : List Char) : Prop :=
  ∀ c ∈ rest.head?, c = ' ' ∨ c = ')'

theorem stops_nil : Stops [] :=
  fun _ h => absurd h (Option.some_ne_none _).symm

theorem stops_cons {c : Char} (h : c = ' ' ∨ c = ')') (cs : List Char) : Stops (c :: cs) := by
  intro d hd
  obtain rfl := Option.some.inj hd
  exact h

/-- A word ends where the next space or list end stands. -/
theorem takeWhile_word {text : String} (h : IsWord text) {rest : List Char} (hrest : Stops rest) :
    (text.toList ++ rest).takeWhile isWordChar = text.toList := by
  rw [List.takeWhile_append_of_pos h.2]
  cases rest with
  | nil => simp
  | cons c cs =>
    rcases hrest c rfl with rfl | rfl
    · simp [show isWordChar ' ' = false by decide]
    · simp [show isWordChar ')' = false by decide]

theorem word_append_inj {text text' : String} (h : IsWord text) (h' : IsWord text')
    {rest rest' : List Char} (hrest : Stops rest) (hrest' : Stops rest')
    (heq : text.toList ++ rest = text'.toList ++ rest') : text = text' ∧ rest = rest' := by
  have hword : text.toList = text'.toList := by
    rw [← takeWhile_word h hrest, heq, takeWhile_word h' hrest']
  exact ⟨String.toList_injective hword, List.append_cancel_left (hword ▸ heq)⟩

/-! ## Texts -/

@[simp] theorem toList_render_word (text : String) : (render (word text)).toList = text.toList := by
  rw [render]

@[simp] theorem toList_render_quoted (value : String) :
    (render (quoted value)).toList = (Text.quoted value).toList := by
  rw [render]

@[simp] theorem toList_render_list (head : String) (items : List SExpr) :
    (render (list head items)).toList = '(' :: (head.toList ++ ((renderItems items).toList ++ [')'])) := by
  simp [render]

@[simp] theorem toList_renderItems_nil : (renderItems []).toList = [] := by
  rw [renderItems]
  rfl

@[simp] theorem toList_renderItems_cons (e : SExpr) (es : List SExpr) :
    (renderItems (e :: es)).toList = ' ' :: (e.render.toList ++ (renderItems es).toList) := by
  simp [renderItems]

/-- Behind an item stands a space or the end of its list. -/
theorem stops_renderItems (es : List SExpr) (rest : List Char) :
    Stops ((renderItems es).toList ++ ')' :: rest) := by
  cases es with
  | nil => exact stops_cons (.inr rfl) rest
  | cons e es =>
    rw [toList_renderItems_cons]
    exact stops_cons (.inl rfl) _

/-- A word starts with none of the characters that start the other S-expressions. -/
theorem IsWord.append_ne {text : String} (h : IsWord text) {c : Char} (hc : isWordChar c = false)
    (rest cs : List Char) : text.toList ++ rest ≠ c :: cs := by
  intro heq
  obtain ⟨d, ds, hd⟩ := List.exists_cons_of_ne_nil h.1
  rw [hd, List.cons_append] at heq
  have hword := h.2 d (by rw [hd]; exact List.mem_cons_self)
  rw [(List.cons.inj heq).1, hc] at hword
  exact Bool.false_ne_true hword

/-! ## One text, one S-expression -/

mutual

/-- Two texts that start alike are texts of the same S-expression; by induction on one of them. -/
theorem render_append_inj : ∀ e : SExpr, e.IsClean → ∀ e' : SExpr, e'.IsClean →
    ∀ rest rest', Stops rest → Stops rest' → e.render.toList ++ rest = e'.render.toList ++ rest' →
      e = e' ∧ rest = rest'
  | word text => by
    intro h e' h' rest rest' hrest hrest' heq
    cases e' with
    | word text' =>
      obtain ⟨rfl, hmore⟩ := word_append_inj h h' hrest hrest' (by simpa using heq)
      exact ⟨rfl, hmore⟩
    | quoted value' =>
      simp only [toList_render_word, toList_render_quoted, Text.toList_quoted, List.cons_append] at heq
      exact absurd heq (IsWord.append_ne h (by decide) _ _)
    | list head' items' =>
      simp only [toList_render_word, toList_render_list, List.cons_append] at heq
      exact absurd heq (IsWord.append_ne h (by decide) _ _)
  | quoted value => by
    intro h e' h' rest rest' hrest hrest' heq
    cases e' with
    | word text' =>
      simp only [toList_render_word, toList_render_quoted, Text.toList_quoted, List.cons_append] at heq
      exact absurd heq.symm (IsWord.append_ne h' (by decide) _ _)
    | quoted value' =>
      obtain ⟨rfl, hmore⟩ := Text.quoted_append_inj (by simpa using heq)
      exact ⟨rfl, hmore⟩
    | list head' items' => simp [Text.toList_quoted] at heq
  | list head items => by
    intro h e' h' rest rest' hrest hrest' heq
    cases e' with
    | word text' =>
      simp only [toList_render_word, toList_render_list, List.cons_append] at heq
      exact absurd heq.symm (IsWord.append_ne h' (by decide) _ _)
    | quoted value' => simp [Text.toList_quoted] at heq
    | list head' items' =>
      simp only [toList_render_list, List.cons_append, List.append_assoc, List.cons.injEq, true_and,
        List.nil_append] at heq
      obtain ⟨rfl, hitems⟩ := word_append_inj h.1 h'.1 (stops_renderItems items rest)
        (stops_renderItems items' rest') heq
      obtain ⟨rfl, rfl⟩ := renderItems_append_inj items h.2 items' h'.2 rest rest' hitems
      exact ⟨rfl, rfl⟩

/-- Two lists of items that start alike are the same up to the end of the list. -/
theorem renderItems_append_inj : ∀ es : List SExpr, AllClean es → ∀ es', AllClean es' →
    ∀ rest rest', (renderItems es).toList ++ ')' :: rest = (renderItems es').toList ++ ')' :: rest' →
      es = es' ∧ rest = rest'
  | [] => by
    intro _ es' _ rest rest' heq
    cases es' with
    | nil => exact ⟨rfl, by simpa using heq⟩
    | cons e' es' => simp at heq
  | e :: es => by
    intro h es' h' rest rest' heq
    cases es' with
    | nil => simp at heq
    | cons e' es' =>
      simp only [toList_renderItems_cons, List.cons_append, List.append_assoc, List.cons.injEq,
        true_and] at heq
      obtain ⟨rfl, hmore⟩ := render_append_inj e h.1 e' h'.1 _ _ (stops_renderItems es rest)
        (stops_renderItems es' rest') heq
      obtain ⟨rfl, rfl⟩ := renderItems_append_inj es h.2 es' h'.2 rest rest' hmore
      exact ⟨rfl, rfl⟩

end

/-- Clean S-expressions with the same text are the same. -/
theorem render_injective {e e' : SExpr} (h : e.IsClean) (h' : e'.IsClean)
    (heq : e.render = e'.render) : e = e' :=
  (render_append_inj e h e' h' [] [] stops_nil stops_nil (by rw [heq])).1

end KconfigLang.SExpr
