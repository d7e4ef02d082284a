import KconfigLang.Token.Stream
import Mathlib.Data.List.Forall2

/-!
# Token lists of texts

The tokens of a text, one for each item of its stream.

- `SameTokens`: token lists that differ in positions only.
- `tokenize_eq_ok_iff`: a text has tokens if every item of its stream is one.
- `tokenize_inFile`: the tokens or the error of a text that is in another file.
-/

namespace KconfigLang

/-- Two token lists that differ in positions only. -/
def SameTokens (ts us : List Lexed) : Prop :=
  ts.map Lexed.token = us.map Lexed.token

/-- A list is read if all of its elements are. -/
theorem mapM_eq_ok_iff {α β ε : Type} {f : α → Except ε β} {xs : List α} {ys : List β} :
    xs.mapM f = .ok ys ↔ List.Forall₂ (fun x y => f x = .ok y) xs ys := by
  induction xs generalizing ys with
  | nil =>
    show Except.ok [] = Except.ok ys ↔ _
    rw [List.forall₂_nil_left_iff, Except.ok.injEq, eq_comm]
  | cons x xs ih =>
    rw [List.mapM_cons, List.forall₂_cons_left_iff]
    constructor
    · intro h
      cases hx : f x with
      | error e => rw [hx] at h; cases h
      | ok y =>
        cases hxs : xs.mapM f with
        | error e => rw [hx, hxs] at h; cases h
        | ok zs =>
          rw [hx, hxs] at h
          exact ⟨y, zs, rfl, ih.mp hxs, (Except.ok.inj h).symm⟩
    · rintro ⟨y, zs, hx, hxs, rfl⟩
      rw [hx, ih.mpr hxs]
      rfl

/-- A list that is not read has an element that is not. -/
theorem exists_error_of_mapM {α β ε : Type} {f : α → Except ε β} {xs : List α} {e : ε} (h : xs.mapM f = .error e) :
    ∃ x ∈ xs, f x = .error e := by
  induction xs with
  | nil => cases h
  | cons x xs ih =>
    rw [List.mapM_cons] at h
    cases hx : f x with
    | error e' =>
      rw [hx] at h
      cases h
      exact ⟨x, List.mem_cons_self, hx⟩
    | ok y =>
      rw [hx] at h
      cases hxs : xs.mapM f with
      | ok ys => rw [hxs] at h; cases h
      | error e' =>
        rw [hxs] at h
        cases h
        obtain ⟨x', hmem, hx'⟩ := ih hxs
        exact ⟨x', List.mem_cons_of_mem x hmem, hx'⟩

theorem mapM_congr {α β ε : Type} {f g : α → Except ε β} {xs : List α} (h : ∀ x ∈ xs, f x = g x) :
    xs.mapM f = xs.mapM g := by
  induction xs with
  | nil => rfl
  | cons x xs ih =>
    obtain ⟨hx, hxs⟩ := List.forall_mem_cons.mp h
    rw [List.mapM_cons, List.mapM_cons, hx, ih hxs]

/-- What every step changes in its result or its failure is changed in those of the run. -/
theorem mapM_map_mapError {α β γ ε δ : Type} (f : α → Except ε β) (onResult : β → γ) (onFailure : ε → δ)
    (xs : List α) :
    xs.mapM (fun x => ((f x).map onResult).mapError onFailure) =
      ((xs.mapM f).map (List.map onResult)).mapError onFailure := by
  induction xs with
  | nil => rfl
  | cons x xs ih =>
    rw [List.mapM_cons, List.mapM_cons, ih]
    cases f x with
    | error e => rfl
    | ok y => cases xs.mapM f <;> rfl

theorem tokenize_eq_ok_iff {loc : Locator} {cs : List Char} {ts : List Lexed} :
    tokenize loc cs = .ok ts ↔
      List.Forall₂ (fun item t => item.locate loc = .ok t) (Cursor.ofChars cs).items ts :=
  mapM_eq_ok_iff

theorem StreamItem.locate_eq_ok_iff {loc : Locator} {item : StreamItem} {t : Lexed} :
    item.locate loc = .ok t ↔
      item.content = .ok t.token ∧ t.span = loc.span item.start item.stop := by
  obtain ⟨content, head, start, stop⟩ := item
  obtain ⟨token, span⟩ := t
  cases content with
  | error e => simp [locate]
  | ok u =>
    simp only [locate, Except.ok.injEq, Lexed.mk.injEq]
    exact and_congr_right fun _ => eq_comm

/-- A stream of tokens only is the token list of its text. -/
theorem tokenize_of_contents (loc : Locator) {cs : List Char} {ts : List Token}
    (h : (Cursor.ofChars cs).items.map (·.content) = ts.map .ok) :
    ∃ us, tokenize loc cs = .ok us ∧ us.map Lexed.token = ts := by
  simp only [tokenize_eq_ok_iff]
  generalize (Cursor.ofChars cs).items = items at h ⊢
  induction ts generalizing items with
  | nil =>
    obtain rfl : items = [] := List.map_eq_nil_iff.mp h
    exact ⟨[], .nil, rfl⟩
  | cons t ts ih =>
    obtain ⟨item, items, rfl, hitem, hitems⟩ := List.map_eq_cons_iff.mp h
    obtain ⟨us, hus, rfl⟩ := ih items hitems
    refine ⟨⟨t, loc.span item.start item.stop⟩ :: us, .cons ?_ hus, rfl⟩
    exact StreamItem.locate_eq_ok_iff.mpr ⟨hitem, rfl⟩

/-- Every token of a text is an item of its stream with its position. -/
theorem exists_located_of_mem {loc : Locator} {cs : List Char} {ts : List Lexed}
    (h : tokenize loc cs = .ok ts) {t : Lexed} (ht : t ∈ ts) :
    ∃ item ∈ (Cursor.ofChars cs).items, item.locate loc = .ok t := by
  rw [tokenize_eq_ok_iff] at h
  generalize (Cursor.ofChars cs).items = items at h ⊢
  induction h with
  | nil => exact absurd ht List.not_mem_nil
  | @cons item u items us hitem _ ih =>
    rcases List.mem_cons.mp ht with rfl | ht
    · exact ⟨item, List.mem_cons_self, hitem⟩
    · obtain ⟨item', hmem, hlocate⟩ := ih ht
      exact ⟨item', List.mem_cons_of_mem _ hmem, hlocate⟩

theorem exists_item_of_mem {loc : Locator} {cs : List Char} {ts : List Lexed}
    (h : tokenize loc cs = .ok ts) {t : Lexed} (ht : t ∈ ts) :
    ∃ item ∈ (Cursor.ofChars cs).items, item.content = .ok t.token := by
  obtain ⟨item, hmem, hlocate⟩ := exists_located_of_mem h ht
  exact ⟨item, hmem, (StreamItem.locate_eq_ok_iff.mp hlocate).1⟩

/-! ## Texts in other files -/

/-- The same bytes of another file. -/
def Span.inFile (id : FileId) (s : Span) : Span :=
  { s with file := id }

/-- The same token in another file. -/
def Lexed.inFile (id : FileId) (t : Lexed) : Lexed :=
  { t with span := t.span.inFile id }

/-- The same failure in another file. -/
def LexError.inFile (id : FileId) (e : LexError) : LexError :=
  { e with span := e.span.inFile id }

theorem StreamItem.locate_inFile (id id' : FileId) (cs : List Char) (item : StreamItem) :
    item.locate (.ofChars id' cs) =
      ((item.locate (.ofChars id cs)).map (Lexed.inFile id')).mapError (LexError.inFile id') := by
  obtain ⟨content, head, start, stop⟩ := item
  cases content <;> rfl

/-- The tokens or the failure of a text are the same in every file. -/
theorem tokenize_inFile (id id' : FileId) (cs : List Char) :
    tokenize (.ofChars id' cs) cs =
      ((tokenize (.ofChars id cs) cs).map (List.map (Lexed.inFile id'))).mapError (LexError.inFile id') := by
  rw [tokenize, tokenize, ← mapM_map_mapError]
  exact mapM_congr fun item _ => item.locate_inFile id id' cs

end KconfigLang
