import KconfigLang.Golden.Run
import KconfigLang.Proofs.Grammar.Rendering
import KconfigLang.Proofs.Text.Words

/-!
# What a golden case tells apart

A golden case compares the words of two S-expressions, so that it does not matter how they are laid out. White
space inside quoted strings takes part in this: of two adjacent spaces only one counts.

- `SExpr.squeeze`: an S-expression with one space for every run of spaces in its strings.
- `sameWords_render_iff`: two S-expressions have the same words exactly if they are the same when squeezed.
- `run_eq_pass_iff`: which other trees pass where one tree passes.
-/

namespace KconfigLang

namespace SExpr

/-! ## Squeezed S-expressions -/

mutual

/-- An S-expression with one space for every run of spaces in its strings. -/
def squeeze : SExpr → SExpr
  | word text => word text
  | quoted value => quoted (String.ofList (Text.squeeze value.toList))
  | list head items => list head (squeezeAll items)

/-- Some S-expressions with one space for every run of spaces in their strings. -/
def squeezeAll : List SExpr → List SExpr
  | [] => []
  | e :: es => squeeze e :: squeezeAll es

end

mutual

/-- The strings in an S-expression. -/
def values : SExpr → List String
  | word _ => []
  | quoted value => [value]
  | list _ items => valuesAll items

/-- The strings in some S-expressions. -/
def valuesAll : List SExpr → List String
  | [] => []
  | e :: es => values e ++ valuesAll es

end

/-- No string in an S-expression has two adjacent spaces. -/
def IsSqueezed (e : SExpr) : Prop :=
  ∀ value ∈ e.values, ¬ [' ', ' '] <:+: value.toList

mutual

theorem squeeze_eq_self : ∀ e : SExpr, e.IsSqueezed → e.squeeze = e
  | word _, _ => rfl
  | quoted value, h => by
    rw [squeeze, Text.squeeze_eq_self (h value List.mem_cons_self), String.ofList_toList]
  | list head items, h => by rw [squeeze, squeezeAll_eq_self items h]

theorem squeezeAll_eq_self : ∀ es : List SExpr,
    (∀ value ∈ valuesAll es, ¬ [' ', ' '] <:+: value.toList) → squeezeAll es = es
  | [], _ => rfl
  | e :: es, h => by
    obtain ⟨he, hes⟩ := List.forall_mem_append.mp h
    rw [squeezeAll, squeeze_eq_self e he, squeezeAll_eq_self es hes]

end

mutual

theorem IsClean.squeeze : ∀ e : SExpr, e.IsClean → e.squeeze.IsClean
  | word _, h => h
  | quoted _, _ => trivial
  | list _ items, h => ⟨h.1, AllClean.squeeze items h.2⟩

theorem AllClean.squeeze : ∀ es : List SExpr, AllClean es → AllClean (squeezeAll es)
  | [], _ => trivial
  | e :: es, h => ⟨IsClean.squeeze e h.1, AllClean.squeeze es h.2⟩

end

/-! ## Squeezed texts -/

theorem space_not_mem_of_isWord {text : String} (h : IsWord text) : ' ' ∉ text.toList :=
  fun hspace => absurd (h.2 ' ' hspace) (by decide)

/-- A quoted text goes on with a space only where the text does. -/
theorem head?_of_escaped {v rest : List Char} (h : (Text.escaped v ++ '"' :: rest).head? = some ' ') :
    v.head? = some ' ' := by
  cases v with
  | nil => exact absurd (Option.some.inj h) (by decide)
  | cons c cs =>
    rw [Text.escaped_cons, List.append_assoc] at h
    obtain ⟨ds, hds⟩ := List.head?_eq_some_iff.mp h
    have hread := Text.readEscaped_escapeChar c (Text.escaped cs ++ '"' :: rest)
    rw [hds] at hread
    obtain ⟨rfl, -⟩ := Prod.mk.inj (Option.some.inj hread)
    rfl

/-- Between quotes a space stands for itself and nothing else is written with one. -/
theorem squeeze_escaped (v rest : List Char) : Text.squeeze (Text.escaped v ++ '"' :: rest) =
    Text.escaped (Text.squeeze v) ++ '"' :: Text.squeeze rest := by
  induction v with
  | nil => exact Text.squeeze_cons (by decide) rest
  | cons c cs ih =>
    rw [Text.escaped_cons, List.append_assoc]
    by_cases hc : c = ' '
    · subst hc
      rw [Text.escapeChar_space, List.singleton_append]
      by_cases hhead : cs.head? = some ' '
      · obtain ⟨ds, rfl⟩ := List.head?_eq_some_iff.mp hhead
        rw [Text.squeeze_space_space, ← ih, Text.escaped_cons, Text.escapeChar_space,
          List.singleton_append, List.cons_append, Text.squeeze_space_space]
      · rw [Text.squeeze_space fun h => hhead (head?_of_escaped h), ih, Text.squeeze_space hhead,
          Text.escaped_cons, Text.escapeChar_space]
        rfl
    · have hspace : ' ' ∉ Text.escapeChar '"' c :=
        fun hspace => absurd (Text.not_white_of_mem_escapeChar hc hspace) (by decide)
      rw [Text.squeeze_append hspace, ih, Text.squeeze_cons hc, Text.escaped_cons, List.append_assoc]

/-- The text of an S-expression starts with no space. -/
theorem head?_render_append {e : SExpr} (h : e.IsClean) (rest : List Char) :
    (e.render.toList ++ rest).head? ≠ some ' ' := by
  cases e with
  | word text =>
    obtain ⟨c, cs, hcs⟩ := List.exists_cons_of_ne_nil h.1
    have hc : isWordChar c = true := h.2 c (hcs ▸ List.mem_cons_self)
    rw [toList_render_word, hcs, List.cons_append, List.head?_cons]
    rintro hspace
    obtain rfl := Option.some.inj hspace
    exact absurd hc (by decide)
  | quoted value => simp [Text.toList_quoted]
  | list head items => simp

/-- The text of an S-expression ends with no space. -/
theorem getLast?_render {e : SExpr} (h : e.IsClean) : e.render.toList.getLast? ≠ some ' ' := by
  cases e with
  | word text =>
    intro hlast
    exact space_not_mem_of_isWord h (toList_render_word text ▸ List.mem_of_getLast? hlast)
  | quoted value => simp [Text.toList_quoted, List.getLast?_cons]
  | list head items => simp [List.getLast?_cons]

mutual

/-- To squeeze the text of an S-expression is to squeeze its strings. -/
theorem squeeze_render : ∀ e : SExpr, e.IsClean → ∀ rest,
    Text.squeeze (e.render.toList ++ rest) = e.squeeze.render.toList ++ Text.squeeze rest
  | word text => by
    intro h rest
    simp only [toList_render_word, squeeze]
    exact Text.squeeze_append (space_not_mem_of_isWord h) rest
  | quoted value => by
    intro _ rest
    simp only [toList_render_quoted, squeeze, Text.toList_quoted, String.toList_ofList, List.cons_append,
      List.append_assoc, List.nil_append]
    rw [Text.squeeze_cons (by decide), squeeze_escaped]
  | list head items => by
    intro h rest
    simp only [toList_render_list, squeeze, List.cons_append, List.append_assoc, List.nil_append]
    rw [Text.squeeze_cons (by decide), Text.squeeze_append (space_not_mem_of_isWord h.1),
      squeeze_renderItems items h.2, Text.squeeze_cons (by decide)]

theorem squeeze_renderItems : ∀ es : List SExpr, AllClean es → ∀ rest,
    Text.squeeze ((renderItems es).toList ++ rest) =
      (renderItems (squeezeAll es)).toList ++ Text.squeeze rest
  | [] => by
    intro _ rest
    simp [squeezeAll]
  | e :: es => by
    intro h rest
    simp only [toList_renderItems_cons, squeezeAll, List.cons_append, List.append_assoc]
    rw [Text.squeeze_space (head?_render_append h.1 _), squeeze_render e h.1, squeeze_renderItems es h.2]

end

/-! ## Words -/

theorem eq_space_of_mem_quoted {value : String} {c : Char} (h : c ∈ (Text.quoted value).toList)
    (hwhite : Text.isWhiteSpace c = true) : c = ' ' := by
  rw [Text.toList_quoted, List.mem_cons, List.mem_append, List.mem_singleton] at h
  rcases h with rfl | h | rfl
  · exact absurd hwhite (by decide)
  · obtain ⟨d, -, hd⟩ := List.mem_flatMap.mp h
    by_cases hspace : d = ' '
    · rw [hspace, Text.escapeChar_space] at hd
      exact List.mem_singleton.mp hd
    · rw [Text.not_white_of_mem_escapeChar hspace hd] at hwhite
      exact absurd hwhite Bool.false_ne_true
  · exact absurd hwhite (by decide)

theorem not_white_of_isWord {text : String} (h : IsWord text) {c : Char} (hc : c ∈ text.toList) :
    Text.isWhiteSpace c = false := by
  have hword := h.2 c hc
  simp only [isWordChar, Bool.and_eq_true, Bool.not_eq_true'] at hword
  exact hword.1.1.1

mutual

/-- The plain space is the only white space in the text of an S-expression. -/
theorem eq_space_of_mem_render : ∀ e : SExpr, e.IsClean → ∀ c ∈ e.render.toList,
    Text.isWhiteSpace c = true → c = ' '
  | word text => by
    intro h c hc hwhite
    rw [toList_render_word] at hc
    exact absurd hwhite (Bool.eq_false_iff.mp (not_white_of_isWord h hc))
  | quoted value => by
    intro _ c hc hwhite
    rw [toList_render_quoted] at hc
    exact eq_space_of_mem_quoted hc hwhite
  | list head items => by
    intro h c hc hwhite
    rw [toList_render_list, List.mem_cons, List.mem_append, List.mem_append, List.mem_singleton] at hc
    rcases hc with rfl | hc | hc | rfl
    · exact absurd hwhite (by decide)
    · exact absurd hwhite (Bool.eq_false_iff.mp (not_white_of_isWord h.1 hc))
    · exact eq_space_of_mem_renderItems items h.2 c hc hwhite
    · exact absurd hwhite (by decide)

theorem eq_space_of_mem_renderItems : ∀ es : List SExpr, AllClean es → ∀ c ∈ (renderItems es).toList,
    Text.isWhiteSpace c = true → c = ' '
  | [] => by
    intro _ c hc
    rw [toList_renderItems_nil] at hc
    exact absurd hc List.not_mem_nil
  | e :: es => by
    intro h c hc hwhite
    rw [toList_renderItems_cons, List.mem_cons, List.mem_append] at hc
    rcases hc with rfl | hc | hc
    · rfl
    · exact eq_space_of_mem_render e h.1 c hc hwhite
    · exact eq_space_of_mem_renderItems es h.2 c hc hwhite

end

end SExpr

namespace Golden

/-- Two S-expressions have the same words if they differ in runs of spaces inside their strings only. -/
theorem sameWords_render_iff {e e' : SExpr} (h : e.IsClean) (h' : e'.IsClean) :
    sameWords e.render e'.render = true ↔ e.squeeze = e'.squeeze := by
  have hhead {e : SExpr} (h : e.IsClean) : e.render.toList.head? ≠ some ' ' := by
    simpa using e.head?_render_append h []
  have hsqueeze {e : SExpr} (h : e.IsClean) : Text.squeeze e.render.toList = e.squeeze.render.toList := by
    simpa [Text.squeeze] using e.squeeze_render h []
  rw [sameWords, beq_iff_eq, Text.words_eq_iff_squeeze_eq (e.eq_space_of_mem_render h)
    (e'.eq_space_of_mem_render h') (hhead h) (hhead h') (e.getLast?_render h) (e'.getLast?_render h'),
    hsqueeze h, hsqueeze h']
  constructor
  · intro heq
    exact SExpr.render_injective (h.squeeze e) (h'.squeeze e') (String.toList_injective heq)
  · intro heq
    rw [heq]

theorem Case.run_eq_pass_iff_sameWords {c : Case} {expected : String} (hc : c.expected = .tree expected)
    {root : Root} (hroot : parse .root c.input = .ok root) :
    c.run = .pass ↔ sameWords root.sexpr expected = true := by
  rw [run, hc]
  simp only [hroot]
  split <;> simp_all

/-- **Golden cases**: where a tree passes, another one passes for the same expected text exactly if their
S-expressions are the same but for the lengths of the runs of spaces inside strings; trees whose strings have
no two adjacent spaces then have the same S-expression. -/
theorem Case.run_eq_pass_iff {c c' : Case} {expected : String} {root root' : Root}
    (hc : c.expected = .tree expected) (hc' : c'.expected = .tree expected)
    (hroot : parse .root c.input = .ok root) (hroot' : parse .root c'.input = .ok root')
    (hpass : c.run = .pass) :
    (c'.run = .pass ↔ root'.toSExpr.squeeze = root.toSExpr.squeeze) ∧
      (root.toSExpr.IsSqueezed → root'.toSExpr.IsSqueezed →
        (c'.run = .pass ↔ root'.sexpr = root.sexpr)) := by
  have hclean : root.toSExpr.IsClean := (isWritten_of_parse hroot).readsBack.clean
  have hclean' : root'.toSExpr.IsClean := (isWritten_of_parse hroot').readsBack.clean
  have hiff : c'.run = .pass ↔ root'.toSExpr.squeeze = root.toSExpr.squeeze := by
    rw [run_eq_pass_iff_sameWords hc' hroot', ← sameWords_render_iff hclean' hclean]
    -- To have the words of the expected text is to have those of the tree that passes.
    have hwords := (run_eq_pass_iff_sameWords hc hroot).mp hpass
    rw [sameWords, beq_iff_eq] at hwords ⊢
    rw [sameWords, beq_iff_eq, ← hwords]
    exact Iff.rfl
  refine ⟨hiff, fun hsqueezed hsqueezed' => ?_⟩
  rw [hiff, root.toSExpr.squeeze_eq_self hsqueezed, root'.toSExpr.squeeze_eq_self hsqueezed']
  constructor
  · intro heq
    exact congrArg SExpr.render heq
  · intro heq
    exact SExpr.render_injective hclean' hclean heq

/-- A case that expects a comment with one space. -/
def commentCase (input : String) : Case :=
  { name := "comment", line := 1, input, expected := .tree "(root (comment \"a b\"))" }

/-- One space and two spaces pass alike, though the S-expressions differ. -/
theorem run_commentCase : ∃ root root', parse .root "comment \"a b\"\n" = .ok root ∧
    parse .root "comment \"a  b\"\n" = .ok root' ∧ (commentCase "comment \"a b\"\n").run = .pass ∧
      (commentCase "comment \"a  b\"\n").run = .pass ∧ root'.sexpr ≠ root.sexpr := by
  obtain ⟨root, hroot, hsexpr⟩ := exists_parse_of_sexpr .root "comment \"a b\"\n"
    "(root (comment \"a b\"))" (by decide +kernel)
  obtain ⟨root', hroot', hsexpr'⟩ := exists_parse_of_sexpr .root "comment \"a  b\"\n"
    "(root (comment \"a  b\"))" (by decide +kernel)
  refine ⟨root, root', hroot, hroot', by decide +kernel, by decide +kernel, ?_⟩
  rw [hsexpr, hsexpr']
  decide

/-- A tab is written with an escape between quotes, so it counts and the case fails. -/
theorem run_commentCase_tab : ∃ root root', parse .root "comment \"a b\"\n" = .ok root ∧
    parse .root "comment \"a\tb\"\n" = .ok root' ∧ (commentCase "comment \"a b\"\n").run = .pass ∧
      (commentCase "comment \"a\tb\"\n").run ≠ .pass ∧
        root'.toSExpr.squeeze ≠ root.toSExpr.squeeze := by
  obtain ⟨root, hroot, -⟩ := exists_parse_of_sexpr .root "comment \"a b\"\n"
    "(root (comment \"a b\"))" (by decide +kernel)
  obtain ⟨root', hroot', -⟩ := exists_parse_of_sexpr .root "comment \"a\tb\"\n"
    "(root (comment \"a\\tb\"))" (by decide +kernel)
  have hpass : (commentCase "comment \"a b\"\n").run = .pass := by decide +kernel
  have hfail : (commentCase "comment \"a\tb\"\n").run ≠ .pass := by decide +kernel
  have hexpected (input : String) : (commentCase input).expected = .tree "(root (comment \"a b\"))" := rfl
  have hiff := (Case.run_eq_pass_iff (hexpected "comment \"a b\"\n") (hexpected "comment \"a\tb\"\n")
    hroot hroot' hpass).1
  exact ⟨root, root', hroot, hroot', hpass, hfail, fun heq => hfail (hiff.mpr heq)⟩

end Golden

end KconfigLang
