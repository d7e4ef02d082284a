import KconfigLang.Proofs.Grammar.PlainTokens

/-!
# Declared types

Whether an entry declares two types is seen from the tokens alone, and so is where it does.

- `TypeState`: what the tokens so far tell about the entry that they are in.
- `TypesOnce`: no entry among some tokens declares two types.
- `Derivation.typesOnce_iff`: the derivations without conflicts.
- `Derivation.exists_second_type`: the first conflict is the first token with which an entry declares two types.
-/

namespace KconfigLang

open KconfigLang.Derivation

/-! ## Types among tokens -/

/-- What the tokens so far tell about the entry that the next token is in. -/
inductive TypeState where
  /-- It is in no entry. -/
  | outside
  /-- The entry has declared no type yet. -/
  | untyped
  /-- The entry has declared its type. -/
  | typed
  deriving DecidableEq, Repr

namespace TypeState

/-- The state behind a token that declares a type; none if that is the second type of an entry. -/
def declare : TypeState → Option TypeState
  | outside => some outside
  | untyped => some typed
  | typed => none

/-- The state behind one more token; none if an entry declares its second type. -/
def step (s : TypeState) (t : Token) : Option TypeState :=
  if t = .keyword .config ∨ t = .keyword .menuconfig then some untyped
  else if t = .keyword .choice then some outside
  else if startsType t then s.declare
  else some s

/-- The state behind some tokens; none if an entry among them declares two types. -/
def run (s : TypeState) (ts : List Token) : Option TypeState :=
  ts.foldlM step s

@[simp] theorem run_nil (s : TypeState) : s.run [] = some s := rfl

@[simp] theorem run_cons (s : TypeState) (t : Token) (ts : List Token) :
    s.run (t :: ts) = (s.step t).bind (·.run ts) := rfl

theorem run_append (s : TypeState) (ts us : List Token) :
    s.run (ts ++ us) = (s.run ts).bind (·.run us) :=
  List.foldlM_append

theorem step_of_isPlain {t : Token} (h : isPlain t = true) (s : TypeState) : s.step t = some s := by
  have hne {u : Token} (hu : isPlain u = false) : t ≠ u := by
    rintro rfl
    exact absurd h (Bool.eq_false_iff.mp hu)
  rw [step, if_neg (not_or.mpr ⟨hne rfl, hne rfl⟩), if_neg (hne rfl), startsType_of_isPlain h]
  rfl

theorem run_of_allPlain {ts : List Lexed} (h : AllPlain ts) (s : TypeState) :
    s.run (ts.map Lexed.token) = some s := by
  induction ts with
  | nil => rfl
  | cons t ts ih =>
    obtain ⟨ht, hts⟩ := List.forall_mem_cons.mp h
    rw [List.map_cons, run_cons, step_of_isPlain ht, Option.bind_some, ih hts]

theorem step_type {t : Token} (h : startsType t = true) (s : TypeState) : s.step t = s.declare := by
  have hne {k : Keyword} (hk : startsType (.keyword k) = false) : t ≠ .keyword k := by
    rintro rfl
    exact absurd h (Bool.eq_false_iff.mp hk)
  rw [step, if_neg (not_or.mpr ⟨hne rfl, hne rfl⟩), if_neg (hne rfl), if_pos h]

theorem exists_step {t : Token} (h : startsType t = false) (s : TypeState) : ∃ s', s.step t = some s' := by
  unfold step
  rw [h]
  split
  · exact ⟨_, rfl⟩
  · split <;> exact ⟨_, rfl⟩

end TypeState

/-- No entry among some tokens declares two types. The types of choices do not count. -/
def TypesOnce (ts : List Token) : Prop :=
  (TypeState.outside.run ts).isSome = true

instance (ts : List Token) : Decidable (TypesOnce ts) :=
  inferInstanceAs (Decidable (_ = true))

theorem TypesOnce.of_append {ts us : List Token} (h : TypesOnce (ts ++ us)) : TypesOnce ts := by
  unfold TypesOnce at h ⊢
  rw [TypeState.run_append] at h
  exact Option.isSome_of_isSome_bind h

/-- Tokens that declare no types may be added. -/
theorem TypesOnce.append {ts us : List Token} (h : TypesOnce ts) (hus : ∀ t ∈ us, startsType t = false) :
    TypesOnce (ts ++ us) := by
  obtain ⟨s, hs⟩ := Option.isSome_iff_exists.mp h
  rw [TypesOnce, TypeState.run_append, hs, Option.bind_some]
  clear h hs
  induction us generalizing s with
  | nil => rfl
  | cons t us ih =>
    obtain ⟨ht, hus⟩ := List.forall_mem_cons.mp hus
    obtain ⟨s', hs'⟩ := TypeState.exists_step ht s
    rw [TypeState.run_cons, hs']
    exact ih hus s'

/-! ## Types in derivations -/

namespace TypeState

/-- The second type of a conflict is declared among some tokens, and no entry before declares two. -/
def Clashes (s : TypeState) (ts : List Lexed) (c : TypeConflict) : Prop :=
  ∃ us t vs s', ts = us ++ t :: vs ∧ s.run (us.map Lexed.token) = some s' ∧ s'.step t.token = none ∧
    t.span.start = c.second.span.start

/-- Among some tokens the first of the given conflicts is found, or no conflict if none is given. -/
def Finds (s : TypeState) (ts : List Lexed) (conflicts : List TypeConflict) : Prop :=
  match conflicts with
  | [] => ∃ s', s.run (ts.map Lexed.token) = some s'
  | c :: _ => s.Clashes ts c

variable {s s' : TypeState} {ts us : List Lexed} {c : TypeConflict} {cs ds : List TypeConflict}

theorem Clashes.append (h : s.Clashes ts c) (us : List Lexed) : s.Clashes (ts ++ us) c := by
  obtain ⟨pre, t, post, s', rfl, hrun⟩ := h
  exact ⟨pre, t, post ++ us, s', by simp, hrun⟩

theorem Clashes.prepend (h : s'.Clashes us c) (hs : s.run (ts.map Lexed.token) = some s') :
    s.Clashes (ts ++ us) c := by
  obtain ⟨pre, t, post, s'', rfl, hrun, hstep⟩ := h
  refine ⟨ts ++ pre, t, post, s'', by simp, ?_, hstep⟩
  rw [List.map_append, run_append, hs, Option.bind_some, hrun]

theorem Clashes.run_eq_none (h : s.Clashes ts c) : s.run (ts.map Lexed.token) = none := by
  obtain ⟨pre, t, post, s', rfl, hrun, hstep, -⟩ := h
  rw [List.map_append, run_append, hrun, Option.bind_some, List.map_cons, run_cons, hstep]
  rfl

theorem Finds.prepend (h : s'.Finds us cs) (hs : s.run (ts.map Lexed.token) = some s') :
    s.Finds (ts ++ us) cs := by
  cases cs with
  | nil =>
    obtain ⟨s'', hrun⟩ := h
    refine ⟨s'', ?_⟩
    rw [List.map_append, run_append, hs, Option.bind_some, hrun]
  | cons c cs => exact Clashes.prepend h hs

/-- Behind a token that is read the conflict is found as before it. -/
theorem Finds.cons {t : Lexed} (h : s'.Finds us cs) (hs : s.step t.token = some s') :
    s.Finds (t :: us) cs := by
  have hrun : s.run ([t].map Lexed.token) = some s' := by
    rw [List.map_singleton, run_cons, hs]
    rfl
  exact h.prepend hrun

theorem Finds.append (h : s.Finds ts cs) (h' : ∀ s' : TypeState, s'.Finds us ds) :
    s.Finds (ts ++ us) (cs ++ ds) := by
  cases cs with
  | nil =>
    obtain ⟨s', hrun⟩ := h
    exact (h' s').prepend hrun
  | cons c cs => exact Clashes.append h us

theorem finds_of_allPlain (h : AllPlain ts) : s.Finds ts [] :=
  ⟨s, run_of_allPlain h s⟩

/-- A plain token behind them changes nothing. -/
theorem Finds.snoc {t : Lexed} (h : s.Finds ts cs) (ht : isPlain t.token = true) :
    s.Finds (ts ++ [t]) cs := by
  rw [← List.append_nil cs]
  exact h.append fun _ => finds_of_allPlain (allTokens_nil.cons ht)

/-- Of tokens that begin with a type only the first one counts. -/
theorem run_of_isTyped {start : Nat} (h : IsTyped ts start) (s : TypeState) :
    s.run (ts.map Lexed.token) = s.declare := by
  obtain ⟨t, rest, rfl, htype, -, hrest⟩ := h
  rw [List.map_cons, run_cons, step_type htype]
  cases s.declare with
  | none => rfl
  | some s' => exact run_of_allPlain hrest.plain s'

end TypeState

namespace Phrase

variable {D E α β : Type} {P : Phrase D α} {Q : D → Phrase E β}

/-- In every state the first conflict of a derivation is found among its tokens. -/
def FindsConflicts (P : Phrase D α) : Prop :=
  ∀ d s, TypeState.Finds s (P.tokens d) (P.conflicts d)

theorem FindsConflicts.list (h : P.FindsConflicts) : P.list.FindsConflicts := by
  intro ds
  induction ds with
  | nil => exact fun s => ⟨s, rfl⟩
  | cons d ds ih => exact fun s => (h d s).append ih

end Phrase

namespace Derivation

open TypeState

/-! ### Lines -/

/-- In the lines of a choice, which is no entry, types do not count. -/
theorem run_choiceLines (ds : List ChoiceLine) :
    outside.run ((ChoiceLine.phrase.list.tokens ds).map Lexed.token) = some outside := by
  induction ds with
  | nil => rfl
  | cons d ds ih =>
    have hd : outside.run ((ChoiceLine.phrase.tokens d).map Lexed.token) = some outside := by
      rcases d.tokens_cases with hinner | ⟨start, htyped⟩
      · exact run_of_allPlain hinner.plain outside
      · exact run_of_isTyped htyped outside
    rw [Phrase.list_tokens, List.flatMap_cons, List.map_append, run_append, hd, Option.bind_some]
    exact ih

/-- The types that some lines declare. -/
abbrev typesOf (ds : List EntryLine) : List TypeDecl :=
  (EntryLine.phrase.list.tree ds).filterMap Grammar.declaredType?

/-- Behind a type the next one clashes. -/
theorem run_typed (first : TypeDecl) (ds : List EntryLine) :
    typed.Finds (EntryLine.phrase.list.tokens ds) ((typesOf ds).head?.map (⟨first, ·⟩)).toList := by
  induction ds with
  | nil => exact ⟨typed, rfl⟩
  | cons d ds ih =>
    rcases d.tokens_cases with ⟨hnone, hinner⟩ | ⟨decl, hsome, t, rest, htokens, htype, hstart, -⟩
    · simp only [typesOf, Phrase.list_tree, List.map_cons, List.filterMap_cons, hnone] at ih ⊢
      exact ih.prepend (run_of_allPlain hinner.plain typed)
    · simp only [typesOf, Phrase.list_tree, List.map_cons, List.filterMap_cons, hsome, List.head?_cons,
        Option.map_some, Option.toList_some, Phrase.list_tokens, List.flatMap_cons, htokens]
      exact ⟨[], t, _, typed, rfl, rfl, step_type htype typed, hstart⟩

theorem run_untyped (ds : List EntryLine) :
    untyped.Finds (EntryLine.phrase.list.tokens ds)
      (Grammar.typeConflict? (EntryLine.phrase.list.tree ds)).toList := by
  induction ds with
  | nil => exact ⟨untyped, rfl⟩
  | cons d ds ih =>
    rcases d.tokens_cases with ⟨hnone, hinner⟩ | ⟨decl, hsome, htyped⟩
    · have hsame : Grammar.typeConflict? (EntryLine.phrase.list.tree (d :: ds)) =
          Grammar.typeConflict? (EntryLine.phrase.list.tree ds) := by
        simp only [Grammar.typeConflict?, Phrase.list_tree, List.map_cons, List.filterMap_cons, hnone]
      rw [hsame]
      exact ih.prepend (run_of_allPlain hinner.plain untyped)
    -- The first type has been declared; what comes behind it decides.
    · have hconflict : (Grammar.typeConflict? (EntryLine.phrase.list.tree (d :: ds))).toList =
          ((typesOf ds).head?.map (⟨decl, ·⟩)).toList := by
        simp only [Grammar.typeConflict?, Phrase.list_tree, List.map_cons, List.filterMap_cons, hsome, typesOf]
        cases (ds.map EntryLine.phrase.tree).filterMap Grammar.declaredType? <;> rfl
      rw [hconflict]
      exact (run_typed decl ds).prepend (run_of_isTyped htyped untyped)

/-! ### Statements -/

theorem finds_entry {word : Keyword} (h : word = .config ∨ word = .menuconfig) :
    (entryPhrase word).FindsConflicts := by
  intro d s
  have hlines : untyped.Finds (identToken d.name :: EntryLine.phrase.list.tokens d.lines) _ :=
    (run_untyped d.lines).cons rfl
  refine hlines.cons ?_
  rcases h with rfl | rfl <;> rfl

theorem finds_choice : choicePhrase.FindsConflicts := by
  intro d s
  have hmembers := (finds_entry (.inl rfl)).list (d.first :: d.more) outside
  have hstop := hmembers.snoc (t := ⟨.keyword .endchoice, d.stop⟩) rfl
  exact (hstop.prepend (run_choiceLines d.lines)).cons rfl

/-- The keyword of an inclusion is not plain, but it leaves every state as it is. -/
theorem finds_source (d : SourceLine) (s : TypeState) : s.Finds (sourcePhrase.tokens d) [] := by
  have hpath : s.Finds [stringToken d.path] [] := finds_of_allPlain (allTokens_nil.cons rfl)
  refine hpath.cons ?_
  cases d.kind <;> rfl

mutual

theorem Statement.finds : ∀ (d : Statement) (s : TypeState), s.Finds d.tokens d.conflicts
  | .config d, s => finds_entry (.inl rfl) d s
  | .menuconfig d, s => finds_entry (.inr rfl) d s
  | .choice d, s => finds_choice d s
  | .comment d, _ => finds_of_allPlain (plain_comment d)
  | .menu pos title lines body stop, s => by
    have hbody := (Statement.findsAll body s).snoc (t := ⟨.keyword .endmenu, stop⟩) rfl
    have hlines := hbody.prepend (run_of_allPlain (allTokens_list MenuLine.inner lines).plain s)
    have htitle : s.Finds (stringToken title :: _) _ := hlines.cons rfl
    exact htitle.cons rfl
  | .ifBlock pos cond body stop, s => by
    have hbody := (Statement.findsAll body s).snoc (t := ⟨.keyword .endif, stop⟩) rfl
    exact (hbody.prepend (run_of_allPlain cond.inner.plain s)).cons rfl
  | .source d, s => finds_source d s

theorem Statement.findsAll : ∀ (ds : List Statement) (s : TypeState),
    s.Finds (tokensAll ds) (conflictsAll ds)
  | [], s => ⟨s, rfl⟩
  | d :: ds, s => (d.finds s).append (Statement.findsAll ds)

end

theorem finds_file (id : FileId) : (File.phrase id).FindsConflicts := by
  intro d s
  have hstatements := Statement.findsAll d.statements s
  rw [Statement.conflictsAll_eq, Statement.tokensAll_eq] at hstatements
  exact hstatements.prepend (run_of_allPlain (plain_title d.title) s)

/-- A file has no conflicts of types if no entry among its tokens declares two. -/
theorem typesOnce_iff (id : FileId) (d : File) :
    TypesOnce (((File.phrase id).tokens d).map Lexed.token) ↔ (File.phrase id).conflicts d = [] := by
  have hfinds := finds_file id d outside
  cases hconflicts : (File.phrase id).conflicts d with
  | nil =>
    rw [hconflicts] at hfinds
    obtain ⟨s', hrun⟩ := hfinds
    rw [TypesOnce, hrun]
    exact iff_of_true rfl rfl
  | cons c cs =>
    rw [hconflicts] at hfinds
    rw [TypesOnce, Clashes.run_eq_none hfinds]
    exact iff_of_false Bool.false_ne_true (List.cons_ne_nil _ _)

/-- The first conflict of a file is the first token with which an entry declares two types. -/
theorem exists_second_type {id : FileId} {d : File} {c : TypeConflict} {cs : List TypeConflict}
    (h : (File.phrase id).conflicts d = c :: cs) : ∃ us t vs, (File.phrase id).tokens d = us ++ t :: vs ∧
      t.span.start = c.second.span.start ∧ TypesOnce (us.map Lexed.token) ∧
        ¬ TypesOnce ((us ++ [t]).map Lexed.token) := by
  have hfinds := finds_file id d outside
  rw [h] at hfinds
  obtain ⟨us, t, vs, s, htokens, hrun, hstep, hstart⟩ := hfinds
  refine ⟨us, t, vs, htokens, hstart, by simp [TypesOnce, hrun], ?_⟩
  simp [TypesOnce, run_append, hrun, hstep]

end Derivation

end KconfigLang
