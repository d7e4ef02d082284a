import KconfigLang.Proofs.Grammar.StmtDerivation

/-!
# Completions

The tokens before the furthest failure of a reader are the beginning of a derivation: with some more tokens they
would have been one.

- `closers`: the tokens that are used to complete a derivation.
- `Completes`: tokens that may stand behind a beginning to complete it.
- `Phrase.Begun`: the beginnings of derivations that can be completed so.
- `Progress`: a reader whose furthest failure is behind such a beginning; one lemma for each way to build a
  reader.
- `Recovers`: such a reader of a phrase that closers alone can make up, and so the end of what was begun.
- `progress_file`: the reader of files is one of them.
-/

namespace KconfigLang

/-! ## Tokens that complete derivations -/

/-- A symbol, an empty string, and the marks and keywords that end constructs or that constructs cannot go on
without. None of them declares a type. -/
def closers : List Token :=
  [.ident "A", .string "" "\"\"", .mark .rightParen, .keyword .on, .keyword .config, .keyword .endchoice,
    .keyword .endmenu, .keyword .endif]

/-- All of some tokens are among `closers`. -/
def AllClosers (ts : List Lexed) : Prop :=
  ∀ t ∈ ts, t.token ∈ closers

/-- Some tokens that may complete what `us` begins: closers, behind an `if` where `us` ends with `visible`. -/
def Completes (us vs : List Lexed) : Prop :=
  AllClosers vs ∨ ∃ pos more, vs = ⟨.keyword .ifCondition, pos⟩ :: more ∧ AllClosers more ∧
    ∃ t ∈ us.getLast?, t.token = .keyword .visible

theorem allClosers_nil : AllClosers [] :=
  List.forall_mem_nil _

theorem AllClosers.append {ts us : List Lexed} (h : AllClosers ts) (h' : AllClosers us) :
    AllClosers (ts ++ us) :=
  List.forall_mem_append.mpr ⟨h, h'⟩

theorem AllClosers.cons {t : Lexed} {ts : List Lexed} (h : t.token ∈ closers) (hs : AllClosers ts) :
    AllClosers (t :: ts) :=
  List.forall_mem_cons.mpr ⟨h, hs⟩

theorem Completes.append {us vs ws : List Lexed} (h : Completes us vs) (hws : AllClosers ws) :
    Completes us (vs ++ ws) := by
  rcases h with h | ⟨pos, more, rfl, hmore, hlast⟩
  · exact .inl (h.append hws)
  · exact .inr ⟨pos, more ++ ws, rfl, hmore.append hws, hlast⟩

theorem Completes.prepend {us vs : List Lexed} (h : Completes us vs) (ts : List Lexed) :
    Completes (ts ++ us) vs := by
  rcases h with h | ⟨pos, more, rfl, hmore, t, ht, hvisible⟩
  · exact .inl h
  · exact .inr ⟨pos, more, rfl, hmore, t, by simp [List.getLast?_append, Option.mem_def.mp ht], hvisible⟩

/-! ## Beginnings -/

namespace Phrase

variable {D E α β : Type} {P : Phrase D α} {Q : D → Phrase E β}

/-- Nothing, or the first tokens of a derivation, behind which those that complete it may stand. -/
def Begun (P : Phrase D α) (us : List Lexed) : Prop :=
  us = [] ∨ ∃ d vs, P.tokens d = us ++ vs ∧ Completes us vs

/-- Some derivation is made of closers. -/
def Completable (P : Phrase D α) : Prop :=
  ∃ d, AllClosers (P.tokens d)

theorem begun_tokens (d : D) : P.Begun (P.tokens d) :=
  .inr ⟨d, [], (List.append_nil _).symm, .inl allClosers_nil⟩

theorem Begun.reshape {D' α' : Type} {P' : Phrase D' α'} {us : List Lexed} (h : P.Begun us) (g : D → D')
    (hg : ∀ d, P'.tokens (g d) = P.tokens d) : P'.Begun us := by
  rcases h with rfl | ⟨d, vs, hd, hvs⟩
  · exact .inl rfl
  · exact .inr ⟨g d, vs, (hg d).trans hd, hvs⟩

theorem Completable.option (P : Phrase D α) : P.option.Completable :=
  ⟨none, allClosers_nil⟩

theorem Completable.list (P : Phrase D α) : P.list.Completable :=
  ⟨[], allClosers_nil⟩

theorem Completable.seq (h : P.Completable) (h' : ∀ d, (Q d).Completable) : (P.seq Q).Completable := by
  obtain ⟨d, hd⟩ := h
  obtain ⟨e, he⟩ := h' d
  exact ⟨(d, e), hd.append he⟩

theorem Completable.map (h : P.Completable) (f : α → β) : (P.map f).Completable :=
  h

theorem Completable.token {word : D → Lexed} {tree : D → α} (d : D) (h : (word d).token ∈ closers) :
    (Phrase.token word tree).Completable :=
  ⟨d, allClosers_nil.cons h⟩

end Phrase

/-! ## Readers -/

/-- Where fewer than `n` tokens are left, the tokens before the furthest failure begin a derivation. -/
def Progress {D α : Type} (n : Nat) (p : Reader α) (P : Phrase D α) : Prop :=
  ∀ (place : Place) (m : Furthest), place.rest.length < n → (p place).furthest = some m →
    ∃ us rest, place.rest = us ++ rest ∧ m.index = place.index + us.length ∧ P.Begun us

theorem Furthest.exists_merge_some (x : Option Furthest) (m : Furthest) : ∃ n, merge x (some m) = some n := by
  cases x with
  | none => exact ⟨m, rfl⟩
  | some m' =>
    unfold merge
    simp only
    split
    · exact ⟨_, rfl⟩
    · split <;> exact ⟨_, rfl⟩

/-- A reader that makes progress, of a phrase that closers alone can make up: another reader may be completed
by it. -/
structure Recovers {D α : Type} (n : Nat) (p : Reader α) (P : Phrase D α) : Prop where
  progress : Progress n p P
  completable : P.Completable

/-- A merged mark is one of the two. -/
theorem Furthest.merge_cases {x y : Option Furthest} {m : Furthest} (h : merge x y = some m) :
    (∃ m', x = some m' ∧ m'.index = m.index) ∨ ∃ m', y = some m' ∧ m'.index = m.index := by
  rcases x with _ | a <;> rcases y with _ | b
  · exact absurd h (Option.some_ne_none _).symm
  · exact .inr ⟨b, rfl, congrArg index (Option.some.inj h)⟩
  · exact .inl ⟨a, rfl, congrArg index (Option.some.inj h)⟩
  · unfold merge at h
    simp only at h
    split at h
    · exact .inr ⟨b, rfl, congrArg index (Option.some.inj h)⟩
    · refine .inl ⟨a, rfl, ?_⟩
      split at h <;> obtain rfl := Option.some.inj h <;> rfl

namespace Progress

open Reader

variable {D E α β : Type} {n m : Nat} {p q : Reader α} {P : Phrase D α} {follow : Token → Bool}

theorem of_le (h : Progress n p P) (hm : m ≤ n) : Progress m p P :=
  fun place mark hlen => h place mark (Nat.lt_of_lt_of_le hlen hm)

theorem of_eq (h : Progress n p P) (hq : ∀ place : Place, place.rest.length < n → q place = p place) :
    Progress n q P :=
  fun place mark hlen hmark => h place mark hlen (hq _ hlen ▸ hmark)

theorem reshape {D' : Type} {P' : Phrase D' α} (h : Progress n p P) (g : D → D')
    (hg : ∀ d, P'.tokens (g d) = P.tokens d) : Progress n p P' := by
  intro place mark hlen hmark
  obtain ⟨us, rest, hrest, hindex, hbegun⟩ := h _ _ hlen hmark
  exact ⟨us, rest, hrest, hindex, hbegun.reshape g hg⟩

/-- A reader of a token fails at its place only. -/
theorem token (e : Expected) (f : Token → Option α) (P : Phrase D α) :
    Progress n (Reader.token e f) P := by
  intro place mark _ hmark
  refine ⟨[], place.rest, rfl, ?_, .inl rfl⟩
  unfold Reader.token at hmark
  split at hmark
  · obtain rfl := Option.some.inj hmark
    rfl
  · split at hmark
    · obtain rfl := Option.some.inj hmark
      rfl
    · exact absurd hmark (Option.some_ne_none _).symm

theorem just (t : Token) (P : Phrase D Unit) : Progress n (Reader.just t) P :=
  token (.token t) (fun u => if u = t then some () else none) P

theorem keyword (k : Keyword) (P : Phrase D Unit) : Progress n (Reader.keyword k) P :=
  just (.keyword k) P

theorem mark (s : Mark) (P : Phrase D Unit) : Progress n (Reader.mark s) P :=
  just (.mark s) P

/-- What the first reader has begun is completed and a derivation of the second is put behind it. -/
theorem bind_of_le {f : α → Reader β} {Q : D → Phrase E β} (hp : Reads n p P follow) (h : Progress n p P)
    (hf : ∀ d, Progress m (f (P.tree d)) (Q d)) (hm : ∀ d, n ≤ m + (P.tokens d).length)
    (hQ : ∀ d us vs, P.tokens d = us ++ vs → Completes us vs → ∃ e, Completes us (vs ++ (Q d).tokens e)) :
    Progress n (p >>= f) (P.seq Q) := by
  have hfirst {place : Place} {mark mark' : Furthest} (hlen : place.rest.length < n)
      (hmark : (p place).furthest = some mark) (hindex' : mark.index = mark'.index) :
      ∃ us rest, place.rest = us ++ rest ∧ mark'.index = place.index + us.length ∧ (P.seq Q).Begun us := by
    obtain ⟨us, rest, hrest, hindex, hbegun⟩ := h _ _ hlen hmark
    refine ⟨us, rest, hrest, hindex' ▸ hindex, ?_⟩
    rcases hbegun with rfl | ⟨d, vs, hd, hvs⟩
    · exact .inl rfl
    · obtain ⟨e, he⟩ := hQ d us vs hd hvs
      exact .inr ⟨(d, e), vs ++ (Q d).tokens e, by simp [Phrase.seq, hd], he⟩
  intro place mark hlen hmark
  replace hmark : (Reader.bind p f place).furthest = some mark := hmark
  cases ht : (p place).taken with
  | none =>
    simp only [Reader.bind, ht] at hmark
    exact hfirst hlen hmark rfl
  | some t =>
    simp only [Reader.bind, ht] at hmark
    rcases Furthest.merge_cases hmark with ⟨mark', hmark', hindex'⟩ | ⟨mark', hmark', hindex'⟩
    · exact hfirst hlen hmark' hindex'
    · obtain ⟨d, rest, hd, rfl⟩ := hp.sound hlen ht
      have hafter : (place.past (P.tokens d)).rest = rest := Place.rest_past hd
      have hshort : (place.past (P.tokens d)).rest.length < m := by
        have := hm d
        rw [hafter]
        simp only [hd, List.length_append] at hlen
        omega
      obtain ⟨us, rest', hrest, hindex, hbegun⟩ := hf d _ _ hshort hmark'
      refine ⟨P.tokens d ++ us, rest', ?_, ?_, ?_⟩
      · rw [hd, List.append_assoc, ← hrest, hafter]
      · rw [← hindex', hindex, List.length_append, ← Nat.add_assoc]
        rfl
      · rcases hbegun with rfl | ⟨e, vs, he, hvs⟩
        · obtain ⟨e, he⟩ := hQ d (P.tokens d) [] (List.append_nil _).symm (.inl allClosers_nil)
          exact .inr ⟨(d, e), (Q d).tokens e, by simp [Phrase.seq], by simpa using he⟩
        · exact .inr ⟨(d, e), vs, by simp [Phrase.seq, he], hvs.prepend _⟩

theorem bind {f : α → Reader β} {Q : D → Phrase E β} (hp : Reads n p P follow) (h : Progress n p P)
    (hf : ∀ d, Recovers n (f (P.tree d)) (Q d)) : Progress n (p >>= f) (P.seq Q) := by
  refine bind_of_le hp h (fun d => (hf d).progress) (fun _ => Nat.le_add_right _ _) fun d us vs _ hvs => ?_
  obtain ⟨e, he⟩ := (hf d).completable
  exact ⟨e, hvs.append he⟩

/-- Behind a reader that takes a token fewer tokens are left. -/
theorem bind_shorter {f : α → Reader β} {Q : D → Phrase E β} {start : Token → Bool}
    (hp : Reads (n + 1) p P follow) (hP : P.Begins start) (h : Progress (n + 1) p P)
    (hf : ∀ d, Recovers n (f (P.tree d)) (Q d)) : Progress (n + 1) (p >>= f) (P.seq Q) := by
  refine bind_of_le hp h (fun d => (hf d).progress) (fun d => ?_) fun d us vs _ hvs => ?_
  · exact Nat.add_le_add_left (List.length_pos_iff.mpr (hP.tokens_ne_nil d)) n
  · obtain ⟨e, he⟩ := (hf d).completable
    exact ⟨e, hvs.append he⟩

theorem andReturn (h : Progress n p P) (f : α → β) : Progress n (p >>= fun a => Pure.pure (f a)) (P.map f) := by
  intro place mark hlen hmark
  refine h place mark hlen ?_
  replace hmark : (Reader.bind p (fun a => Pure.pure (f a)) place).furthest = some mark := hmark
  rw [← hmark]
  simp only [Reader.bind]
  obtain ⟨_ | t, x⟩ := p place
  · rfl
  · cases x <;> rfl

theorem map (h : Progress n p P) (f : α → β) : Progress n (f <$> p) (P.map f) :=
  h.andReturn f

theorem labelled (h : Progress n p P) (c : Construct) : Progress n (Reader.labelled c p) P := by
  intro place mark hlen hmark
  obtain ⟨mark', hmark', hindex⟩ := Option.map_eq_some_iff.mp hmark
  obtain ⟨us, rest, hrest, hus, hbegun⟩ := h _ _ hlen hmark'
  refine ⟨us, rest, hrest, ?_, hbegun⟩
  rw [← hus, ← hindex]
  split <;> rfl

theorem withSpan {p : Reader (Span → α)} {P : Phrase D (Span → α)} (h : Progress n p P) :
    Progress n (Reader.withSpan p) P.spanned :=
  h

/-! ### Alternatives and repetition -/

theorem orElse {q : Reader α} {Q : Phrase E α} (h : Progress n p P) (h' : Progress n q Q) :
    Progress n (p.orElse q) (P.sum Q) := by
  have hleft {us : List Lexed} (hbegun : P.Begun us) : (P.sum Q).Begun us :=
    hbegun.reshape .inl fun _ => rfl
  have hright {us : List Lexed} (hbegun : Q.Begun us) : (P.sum Q).Begun us :=
    hbegun.reshape .inr fun _ => rfl
  intro place mark hlen hmark
  simp only [Reader.orElse] at hmark
  split at hmark
  · obtain ⟨us, rest, hrest, hindex, hbegun⟩ := h _ _ hlen hmark
    exact ⟨us, rest, hrest, hindex, hleft hbegun⟩
  · rcases Furthest.merge_cases hmark with ⟨mark', hmark', hindex'⟩ | ⟨mark', hmark', hindex'⟩
    · obtain ⟨us, rest, hrest, hindex, hbegun⟩ := h _ _ hlen hmark'
      exact ⟨us, rest, hrest, hindex' ▸ hindex, hleft hbegun⟩
    · obtain ⟨us, rest, hrest, hindex, hbegun⟩ := h' _ _ hlen hmark'
      exact ⟨us, rest, hrest, hindex' ▸ hindex, hright hbegun⟩

theorem optional (h : Progress n p P) : Recovers n (Reader.optional p) P.option := by
  refine ⟨fun place mark hlen hmark => ?_, .option P⟩
  have hmark : (p place).furthest = some mark := by
    simp only [Reader.optional] at hmark
    split at hmark <;> exact hmark
  obtain ⟨us, rest, hrest, hindex, hbegun⟩ := h _ _ hlen hmark
  exact ⟨us, rest, hrest, hindex, hbegun.reshape some fun _ => rfl⟩

theorem begun_list {us : List Lexed} (h : P.Begun us) : P.list.Begun us :=
  h.reshape (fun d => [d]) fun d => by simp

/-- Behind one node more nodes may begin. -/
theorem begun_list_append (d : D) {us : List Lexed} (h : P.list.Begun us) :
    P.list.Begun (P.tokens d ++ us) := by
  rcases h with rfl | ⟨ds, vs, hds, hvs⟩
  · rw [List.append_nil]
    exact begun_list (Phrase.begun_tokens d)
  · refine .inr ⟨d :: ds, vs, ?_, hvs.prepend _⟩
    rw [List.append_assoc, ← hds]
    rfl

theorem many {start : Token → Bool} (hp : Reads n p P follow) (hP : P.Begins start) (h : Progress n p P) :
    Recovers n (Reader.many p) P.list := by
  refine ⟨fun place mark hlen hmark => ?_, .list P⟩
  induction hk : place.rest.length using Nat.strongRecOn generalizing place mark with
  | _ k ih =>
    have hfirst {mark' : Furthest} (hmark' : (p place).furthest = some mark')
        (hindex' : mark'.index = mark.index) : ∃ us rest, place.rest = us ++ rest ∧
          mark.index = place.index + us.length ∧ P.list.Begun us := by
      obtain ⟨us, rest, hrest, hindex, hbegun⟩ := h _ _ hlen hmark'
      exact ⟨us, rest, hrest, hindex' ▸ hindex, begun_list hbegun⟩
    rw [Reader.many.eq_def] at hmark
    simp only at hmark
    cases ht : (p place).taken with
    | none =>
      simp only [ht] at hmark
      exact hfirst hmark rfl
    | some t =>
      obtain ⟨d, rest, hd, rfl⟩ := hp.sound hlen ht
      have hafter : (place.past (P.tokens d)).rest = rest := Place.rest_past hd
      have hshort : rest.length < place.rest.length := Reads.length_lt_of_begins hP hd
      simp only [ht, hafter, if_pos hshort] at hmark
      rcases Furthest.merge_cases hmark with ⟨mark', hmark', hindex'⟩ | ⟨mark', hmark', hindex'⟩
      · exact hfirst hmark' hindex'
      · obtain ⟨us, rest', hrest, hindex, hbegun⟩ :=
          ih _ (hk ▸ hshort) _ _ (by rw [hafter]; omega) hmark' (by rw [hafter])
        refine ⟨P.tokens d ++ us, rest', ?_, ?_, begun_list_append d hbegun⟩
        · rw [hd, List.append_assoc, ← hrest, hafter]
        · rw [← hindex', hindex, List.length_append, ← Nat.add_assoc]
          rfl

/-! ### Readers that contain themselves -/

theorem fix_of_le {body : Reader α → Reader α} (hp : Reads m (Reader.fix body) P follow)
    (h : ∀ k < m, ∀ inner, Reads k inner P follow → Progress k inner P → Progress (k + 1) (body inner) P)
    (hm : n ≤ m) : Progress n (Reader.fix body) P := by
  induction n with
  | zero => exact fun _ _ hlen => absurd hlen (Nat.not_lt_zero _)
  | succ n ih =>
    have ih : Progress n (Reader.fix body) P := ih (Nat.le_of_succ_le hm)
    intro place mark hlen hmark
    rw [Reader.fix.eq_def] at hmark
    -- Unfolded once, the reader is its body around a reader that knows places with fewer tokens only.
    refine h place.rest.length (by omega) _ ?_ ?_ place mark (Nat.lt_succ_self _) hmark
    · exact (hp.of_le (by omega)).of_eq fun q hq => if_pos hq
    · exact (ih.of_le (Nat.le_of_lt_succ hlen)).of_eq fun q hq => if_pos hq

theorem fix {body : Reader α → Reader α} (hp : Reads n (Reader.fix body) P follow)
    (h : ∀ k inner, Reads k inner P follow → Progress k inner P → Progress (k + 1) (body inner) P) :
    Progress n (Reader.fix body) P :=
  fix_of_le hp (fun k _ => h k) (Nat.le_refl n)

end Progress

namespace Recovers

open Reader

variable {D E α β : Type} {n : Nat} {p : Reader α} {P : Phrase D α} {follow : Token → Bool}

theorem report (conflicts : List TypeConflict) :
    Recovers n (Reader.report conflicts) (Phrase.nothing () conflicts) where
  progress _ _ _ hmark := absurd hmark (Option.some_ne_none _).symm
  completable := ⟨(), allClosers_nil⟩

theorem keyword {k : Keyword} (h : .keyword k ∈ closers) :
    Recovers n (Reader.keyword k) (Phrase.token (fun pos => ⟨.keyword k, pos⟩) fun _ => ()) :=
  ⟨.keyword k _, .token default h⟩

theorem bind {f : α → Reader β} {Q : D → Phrase E β} (hp : Reads n p P follow) (h : Recovers n p P)
    (hf : ∀ d, Recovers n (f (P.tree d)) (Q d)) : Recovers n (p >>= f) (P.seq Q) where
  progress := h.progress.bind hp hf
  completable := h.completable.seq fun d => (hf d).completable

theorem andReturn (h : Recovers n p P) (f : α → β) : Recovers n (p >>= fun a => Pure.pure (f a)) (P.map f) where
  progress := h.progress.andReturn f
  completable := h.completable.map f

theorem map (h : Recovers n p P) (f : α → β) : Recovers n (f <$> p) (P.map f) :=
  h.andReturn f

theorem many1 {start : Token → Bool} (hp : Reads n p P follow) (hP : P.Begins start) (h : Recovers n p P) :
    Recovers n (Reader.many1 p) (P.seq fun d => P.list.map (P.tree d :: ·)) :=
  h.bind hp fun _ => (h.progress.many hp hP).andReturn _

end Recovers

/-! ## The grammar -/

namespace Derivation

open Reader

variable {n : Nat}

/-! ### Expressions -/

/-- The symbol that completes derivations. -/
def closingSymbol : Ident :=
  ⟨"A", default⟩

/-- The string that completes derivations. -/
def closingString : StringNode :=
  ⟨"", "\"\"", default⟩

/-- The operand that completes derivations. -/
def closingUnary : Unary :=
  .leaf (.symbol closingSymbol)

/-- The expression that completes derivations. -/
def closingExpr : Disjunction :=
  .single (.single (.single closingUnary))

theorem allClosers_symbol : AllClosers [identToken closingSymbol] :=
  allClosers_nil.cons (by decide)

theorem recovers_symbol : Recovers n Grammar.symbol (Phrase.token identToken id) where
  progress := (Progress.token _ _ (Phrase.token identToken fun id => Ident.mk id.name)).withSpan.labelled _
  completable := ⟨closingSymbol, allClosers_symbol⟩

theorem recovers_string : Recovers n Grammar.string (Phrase.token stringToken id) where
  progress :=
    (Progress.token _ _ (Phrase.token stringToken fun s => StringNode.mk s.value s.raw)).withSpan.labelled _
  completable := ⟨closingString, allClosers_nil.cons (by decide)⟩

theorem progress_literal :
    Progress n Grammar.literal (Phrase.token literalToken fun d => d.1.node d.2) :=
  (Progress.token _ _ (Phrase.token literalToken fun d => d.1.node)).withSpan.labelled _

theorem recovers_leaf :
    Recovers n (firstOf [Grammar.literal, Expr.symbol <$> Grammar.symbol]) Leaf.phrase where
  progress := by
    refine (progress_literal.orElse (recovers_symbol.map Expr.symbol).progress).reshape
      (Sum.elim (fun d => .literal d.1 d.2) .symbol) ?_
    rintro (d | d) <;> rfl
  completable := ⟨.symbol closingSymbol, allClosers_symbol⟩

theorem completable_unary : Unary.phrase.Completable :=
  ⟨closingUnary, allClosers_symbol⟩

theorem completable_expression : Disjunction.phrase.Completable :=
  ⟨closingExpr, allClosers_symbol⟩

theorem progress_negation {operand : Reader Expr} (h : Progress n operand Unary.phrase) :
    Progress (n + 1) (Grammar.negation operand) notPhrase := by
  have hoperand : Recovers n operand Unary.phrase := ⟨h, completable_unary⟩
  exact (Progress.bind_shorter (.mark .not) (begins_mark .not) (.mark .not _)
    fun _ => hoperand.andReturn _).withSpan.reshape id fun _ => rfl

theorem progress_parenthesised {inner : Reader Expr} (hinner : Reads n inner Disjunction.phrase afterExpr)
    (h : Progress n inner Disjunction.phrase) :
    Progress (n + 1) (Grammar.parenthesised inner) parensPhrase := by
  have hright : Recovers n (Reader.mark .rightParen)
      (Phrase.token (fun pos => ⟨.mark .rightParen, pos⟩) fun _ => ()) :=
    ⟨.mark .rightParen _, .token default (by decide)⟩
  have hexpr : Recovers n inner Disjunction.phrase := ⟨h, completable_expression⟩
  exact (Progress.bind_shorter (.mark .leftParen) (begins_mark .leftParen) (.mark .leftParen _)
    fun _ => hexpr.bind hinner fun _ => hright.andReturn _).reshape id fun _ => rfl

theorem progress_unary {inner : Reader Expr} (hinner : Reads n inner Disjunction.phrase afterExpr)
    (h : Progress n inner Disjunction.phrase) : Progress (n + 1) (Grammar.unary inner) Unary.phrase := by
  refine Progress.fix_of_le (reads_unary hinner) (fun k hk self _ hself => ?_) (Nat.le_refl _)
  have hk : k ≤ n := Nat.le_of_lt_succ hk
  have hparens := progress_parenthesised (hinner.of_le hk) (h.of_le hk)
  have hleaf := (recovers_symbol (n := k + 1)).map Expr.symbol
  refine ((progress_negation hself).orElse (progress_literal.orElse (hleaf.progress.orElse hparens))).reshape
    (Sum.elim (fun d => .not d.1 d.2) (Sum.elim (fun d => .leaf (.literal d.1 d.2))
      (Sum.elim (fun id => .leaf (.symbol id)) fun d => .parens d.1 d.2.1 d.2.2))) ?_
  rintro (d | d | d | d) <;> rfl

theorem progress_comparison {operand : Reader Expr} (hoperand : Reads n operand Unary.phrase anyToken)
    (h : Progress n operand Unary.phrase) : Progress n (Grammar.comparison operand) Comparison.phrase := by
  have hunary : Recovers n operand Unary.phrase := ⟨h, completable_unary⟩
  have hright : Progress n (do let op ← Grammar.comparisonOp; let rhs ← operand; return (op, rhs))
      ((Phrase.token comparatorToken fun d => d.1.op).seq fun d => Unary.phrase.map fun e => (d.1.op, e)) :=
    (Progress.token _ _ _).bind reads_comparator fun _ => hunary.andReturn _
  refine (h.bind hoperand fun _ => hright.optional.andReturn _).reshape
    (fun d => match d.2 with
      | none => .single d.1
      | some (op, v) => .compare d.1 op.1 op.2 v) ?_
  rintro ⟨u, _ | ⟨op, v⟩⟩
  · exact (List.append_nil _).symm
  · rfl

theorem IsChain.progress {D K : Type} {sign : Mark} {op : BinaryOp} {P : Phrase D Expr} {Q : Phrase K Expr}
    {first : D → K} {link : K → Span → D → K} {follow : Token → Bool} {operand : Reader Expr}
    (hchain : IsChain sign op P Q first link) (hoperand : Reads n operand P follow)
    (h : Recovers n operand P) : Progress n (Grammar.chain sign op operand) Q := by
  have hlink : Reads n (do Reader.mark sign; operand) (linkPhrase sign P) follow :=
    (Reads.mark sign).andThen fun _ => hoperand
  have hmore : Progress n (do Reader.mark sign; operand) (linkPhrase sign P) :=
    (Progress.mark sign _).bind (Reads.mark sign) fun _ => h
  have hlinks := hmore.many hlink ((begins_mark sign).seq fun _ => P)
  refine (h.progress.bind hoperand fun _ => hlinks.andReturn _).reshape (chainOf first link) ?_
  rintro ⟨d, more⟩
  simp [chainOf, hchain.tokens_foldl, hchain.tokens_first]

theorem completable_comparison : Comparison.phrase.Completable :=
  ⟨.single closingUnary, allClosers_symbol⟩

theorem completable_conjunction : Conjunction.phrase.Completable :=
  ⟨.single (.single closingUnary), allClosers_symbol⟩

theorem progress_disjunction {inner : Reader Expr} (hinner : Reads n inner Disjunction.phrase afterExpr)
    (h : Progress n inner Disjunction.phrase) :
    Progress (n + 1) (Grammar.disjunction inner) Disjunction.phrase := by
  have hunary := reads_unary hinner
  have hcomparison := progress_comparison hunary (progress_unary hinner h)
  have hconjunction := conjunction_isChain.progress (reads_comparison hunary)
    ⟨hcomparison, completable_comparison⟩
  exact disjunction_isChain.progress (reads_conjunction hinner) ⟨hconjunction, completable_conjunction⟩

theorem recovers_expression : Recovers n Grammar.expression Disjunction.phrase where
  progress := (Progress.fix (.fix fun _ _ => reads_disjunction) fun _ _ => progress_disjunction).labelled _
  completable := completable_expression

/-! ### Lines -/

theorem recovers_condition : Recovers n Grammar.condition Condition.phrase.option := by
  have hcondition : Progress n (do Reader.keyword .ifCondition; Grammar.expression) _ :=
    (Progress.keyword .ifCondition _).bind (Reads.keyword .ifCondition) fun _ => recovers_expression
  exact (hcondition.reshape (fun d => ⟨d.1, d.2⟩) fun _ => rfl).optional

/-- A node that starts with a keyword. -/
theorem progress_keyworded {D α : Type} (word : Keyword) (c : Construct) {p : Reader (Span → α)}
    {P : Phrase D (Span → α)} (h : Recovers n p P) :
    Progress n (labelled c (withSpan (do Reader.keyword word; p)))
      ((Phrase.token (fun pos => ⟨.keyword word, pos⟩) fun _ => ()).seq fun _ => P).spanned := by
  have hline : Progress n (do Reader.keyword word; p) _ :=
    (Progress.keyword word _).bind (Reads.keyword word) fun _ => h
  exact hline.withSpan.labelled c

/-- A node and the condition behind it. -/
theorem recovers_conditional {D α β : Type} {p : Reader α} {P : Phrase D α} {follow : Token → Bool}
    (hp : Reads n p P follow) (h : Recovers n p P) (f : α → Option Expr → β) :
    Recovers n (do let a ← p; let cond ← Grammar.condition; return f a cond)
      (P.seq fun d => Condition.phrase.option.map (f (P.tree d))) :=
  h.bind hp fun _ => recovers_condition.andReturn _

theorem progress_type : Progress n Grammar.typeDecl typePhrase := by
  have hshown : Recovers n (Reader.optional
      (do let text ← Grammar.string; let cond ← Grammar.condition; return (text, cond))) shownPhrase.option :=
    (recovers_conditional reads_string recovers_string Prod.mk).progress.optional
  refine (((Progress.token _ _ (Phrase.token typeToken Prod.fst)).bind reads_typeKeyword
    fun _ => hshown.andReturn _).withSpan.labelled _).reshape (fun d => ⟨d.1.1, d.1.2, d.2⟩) ?_
  rintro ⟨⟨k, pos⟩, _ | ⟨text, cond⟩⟩ <;> rfl

theorem progress_prompt : Progress n Grammar.prompt promptPhrase :=
  (progress_keyworded .prompt .prompt (recovers_conditional reads_string recovers_string _)).reshape
    (fun d => ⟨d.1, d.2.1, d.2.2⟩) fun _ => rfl

theorem progress_value (word : Keyword) (literal stored : Expr → Expr) :
    Progress n (Grammar.defaultValue word literal) (valuePhrase word stored) :=
  ((Progress.keyword word _).bind (Reads.keyword word) fun _ =>
    recovers_conditional reads_expression recovers_expression _).reshape
    (fun d => ⟨d.1, d.2.1, d.2.2⟩) fun _ => rfl

theorem progress_default : Progress n Grammar.default defaultPhrase :=
  ((progress_value .default _ _).andReturn _).withSpan.labelled _

theorem progress_defBool : Progress n Grammar.defBool defBoolPhrase :=
  ((progress_value .defBool _ _).andReturn _).withSpan.labelled _

theorem progress_defTristate : Progress n Grammar.defTristate defTristatePhrase :=
  ((progress_value .defTristate _ _).andReturn _).withSpan.labelled _

theorem progress_depends : Progress n Grammar.dependsOn dependsPhrase := by
  have hon : Recovers n (Reader.keyword .on) _ := .keyword (by decide)
  exact (progress_keyworded .depends .dependsOn (hon.bind (Reads.keyword .on) fun _ =>
    recovers_expression.andReturn _)).reshape (fun d => ⟨d.1, d.2.1, d.2.2⟩) fun _ => rfl

/-- The `if` behind `visible` is no closer; a derivation that goes on with it completes the keyword alone. -/
theorem progress_visible : Progress n Grammar.visibleIf visiblePhrase := by
  have hcondition : Progress n
      (do Reader.keyword .ifCondition; let e ← Grammar.expression; return Property.visible e) _ :=
    (Progress.keyword .ifCondition _).bind (Reads.keyword .ifCondition) fun _ =>
      recovers_expression.andReturn Property.visible
  refine ((Progress.bind_of_le (Reads.keyword .visible) (Progress.keyword .visible _)
    (fun _ => hcondition) (fun _ => Nat.le_add_right _ _) ?_).withSpan.labelled _).reshape
    (fun d => ⟨d.1, d.2.1, d.2.2⟩) fun _ => rfl
  rintro pos us vs hd hvs
  cases us with
  | nil =>
    -- Nothing read: `visible` itself would have to be a closer.
    obtain rfl : [⟨.keyword .visible, pos⟩] = vs := hd
    rcases hvs with hvs | ⟨_, _, -, -, t, ht, -⟩
    · have hvisible : Token.keyword .visible ∈ closers := hvs _ (List.mem_singleton_self _)
      exact absurd hvisible (by decide)
    · exact absurd ht (Option.not_mem_none _)
  | cons t us =>
    obtain ⟨rfl, hnil⟩ := List.cons.inj hd
    obtain ⟨rfl, rfl⟩ := List.append_eq_nil_iff.mp hnil.symm
    exact ⟨(default, closingExpr), .inr ⟨default, _, rfl, allClosers_symbol, _, rfl, rfl⟩⟩

theorem progress_reference (word : Keyword) : Progress n (Grammar.reference word) (referencePhrase word) :=
  ((Progress.keyword word _).bind (Reads.keyword word) fun _ =>
    recovers_conditional reads_symbol recovers_symbol _).reshape
    (fun d => ⟨d.1, d.2.1, d.2.2⟩) fun _ => rfl

theorem progress_select : Progress n Grammar.select selectPhrase :=
  ((progress_reference .select).andReturn _).withSpan.labelled _

theorem progress_imply : Progress n Grammar.imply implyPhrase :=
  ((progress_reference .imply).andReturn _).withSpan.labelled _

theorem progress_defaultMember : Progress n Grammar.defaultMember defaultMemberPhrase :=
  ((progress_reference .default).andReturn _).withSpan.labelled _

theorem progress_range : Progress n Grammar.range rangePhrase :=
  (progress_keyworded .range .range (recovers_leaf.bind reads_leaf fun _ =>
    recovers_conditional reads_leaf recovers_leaf _)).reshape
    (fun d => ⟨d.1, d.2.1, d.2.2.1, d.2.2.2⟩) fun _ => rfl

theorem progress_help : Progress n Grammar.help helpPhrase :=
  ((Progress.token _ _ (Phrase.token helpToken fun d => Property.help d.body)).withSpan.labelled _).reshape
    id fun _ => rfl

theorem progress_option : Progress n Grammar.option optionPhrase := by
  have hname (f : Token → Option OptionName) :
      Recovers n (Reader.oneOf f) (Phrase.token optionNameToken Prod.fst) :=
    ⟨.token _ _ _, .token (.other "A", default) (by decide)⟩
  have hvalue : Recovers n (Reader.optional (do Reader.mark .equal; Grammar.string)) equalsPhrase.option :=
    ((Progress.mark .equal _).bind (Reads.mark .equal) fun _ => recovers_string).optional
  refine (progress_keyworded .option .option ((hname _).bind reads_optionName fun _ =>
    hvalue.andReturn _)).reshape (fun d => ⟨d.1, d.2.1.1, d.2.1.2, d.2.2⟩) ?_
  rintro ⟨pos, o, _ | ⟨pos', s⟩⟩ <;> rfl

theorem progress_entryLine : Progress n Grammar.entryProperty EntryLine.phrase := by
  refine Progress.reshape (progress_type.orElse <| progress_prompt.orElse <| progress_default.orElse <|
    progress_defBool.orElse <| progress_defTristate.orElse <| progress_depends.orElse <|
    progress_select.orElse <| progress_imply.orElse <| progress_range.orElse <|
    progress_help.orElse progress_option)
    (Sum.elim .type <| Sum.elim .prompt <| Sum.elim .default <| Sum.elim .defBool <|
      Sum.elim .defTristate <| Sum.elim .dependsOn <| Sum.elim .select <| Sum.elim .imply <|
      Sum.elim .range <| Sum.elim .help .option) ?_
  rintro (d | d | d | d | d | d | d | d | d | d | d) <;> rfl

theorem progress_choiceLine : Progress n Grammar.choiceProperty ChoiceLine.phrase := by
  refine Progress.reshape (progress_type.orElse <| progress_prompt.orElse <| progress_defaultMember.orElse <|
    progress_depends.orElse <| progress_help.orElse progress_option)
    (Sum.elim .type <| Sum.elim .prompt <| Sum.elim .defaultMember <| Sum.elim .dependsOn <|
      Sum.elim .help .option) ?_
  rintro (d | d | d | d | d | d) <;> rfl

theorem progress_menuLine : Progress n Grammar.menuProperty MenuLine.phrase := by
  refine Progress.reshape (progress_depends.orElse progress_visible) (Sum.elim .dependsOn .visible) ?_
  rintro (d | d) <;> rfl

/-! ### Statements -/

theorem progress_entry (word : Keyword) (name : Construct) :
    Progress n (Grammar.entry word name) (entryPhrase word) := by
  have hlines : Recovers n (Reader.many Grammar.entryProperty) EntryLine.phrase.list :=
    progress_entryLine.many reads_entryLine.reads (reads_entryLine (n := n)).begins
  refine (progress_keyworded word name (recovers_symbol.bind reads_symbol fun _ =>
    hlines.bind reads_entryLines fun _ => (Recovers.report _).andReturn _)).reshape
    (fun d => ⟨d.1, d.2.1, d.2.2.1⟩) ?_
  rintro ⟨pos, id, lines, ⟨⟩⟩
  simp [entryPhrase]

theorem recovers_entry : Recovers n Grammar.configEntry (entryPhrase .config) where
  progress := progress_entry .config .configEntry
  completable := ⟨⟨default, closingSymbol, []⟩, allClosers_symbol.cons (by decide)⟩

theorem progress_choice : Progress n Grammar.choice choicePhrase := by
  have hlines : Recovers n (Reader.many Grammar.choiceProperty) ChoiceLine.phrase.list :=
    progress_choiceLine.many reads_choiceLine.reads (reads_choiceLine (n := n)).begins
  have hmembers : Recovers n (Reader.many1 Grammar.configEntry) _ :=
    recovers_entry.many1 (reads_entry .config .configEntry) (begins_entry _)
  have hstop : Recovers n (Reader.keyword .endchoice) _ := .keyword (by decide)
  refine (progress_keyworded .choice .choice (hlines.bind reads_choiceLines fun _ =>
    hmembers.bind reads_members fun _ => hstop.andReturn _)).reshape
    (fun d => ⟨d.1, d.2.1, d.2.2.1.1, d.2.2.1.2, d.2.2.2⟩) ?_
  rintro ⟨pos, lines, ⟨first, more⟩, stop⟩
  simp [choicePhrase]

theorem progress_comment : Progress n Grammar.comment commentPhrase := by
  have hlines : Recovers n (Reader.many Grammar.dependsOn) dependsPhrase.list :=
    progress_depends.many reads_depends begins_depends
  exact (progress_keyworded .comment .comment (recovers_string.bind reads_string fun _ =>
    hlines.andReturn _)).reshape (fun d => ⟨d.1, d.2.1, d.2.2⟩) fun _ => rfl

theorem progress_title : Progress n Grammar.mainMenu titlePhrase :=
  (progress_keyworded .mainmenu .mainmenu (recovers_string.andReturn _)).reshape
    (fun d => ⟨d.1, d.2⟩) fun _ => rfl

theorem progress_source : Progress n Grammar.source sourcePhrase :=
  (((Progress.token _ _ (Phrase.token sourceToken Prod.fst)).bind reads_sourceKeyword
    fun _ => recovers_string.andReturn _).withSpan.labelled _).reshape
    (fun d => ⟨d.1.1, d.1.2, d.2⟩) fun _ => rfl

/-- The statements of a block and the keyword that ends it. -/
theorem recovers_body {inner : Reader Stmt} (hinner : Reads n inner Statement.phrase afterStatement)
    (h : Progress n inner Statement.phrase) {stop : Keyword} (hstop : .keyword stop ∈ closers) {α : Type}
    (f : List Stmt → α) :
    Recovers n (do let body ← Reader.many inner; Reader.keyword stop; return f body)
      ((bodyPhrase stop).map f) := by
  have hbody : Recovers n (do let body ← Reader.many inner; Reader.keyword stop; return f body) _ :=
    (h.many hinner begins_statement).bind (reads_block hinner) fun ds =>
      (Recovers.keyword hstop).andReturn fun _ => f (Statement.phrase.list.tree ds)
  exact ⟨hbody.progress.reshape id fun _ => rfl, hbody.completable⟩

theorem progress_menu {inner : Reader Stmt} (hinner : Reads n inner Statement.phrase afterStatement)
    (h : Progress n inner Statement.phrase) : Progress (n + 1) (Grammar.menu inner) menuPhrase := by
  have hlines : Recovers n (Reader.many Grammar.menuProperty) MenuLine.phrase.list :=
    progress_menuLine.many reads_menuLine.reads (reads_menuLine (n := n)).begins
  refine ((Progress.bind_shorter (.keyword .menu) (begins_keyword .menu) (.keyword .menu _) fun _ =>
    recovers_string.bind reads_string fun _ => hlines.bind reads_menuLines fun _ =>
      recovers_body hinner h (by decide) _).withSpan.labelled _).reshape id ?_
  rintro ⟨pos, title, lines, body, stop⟩
  simp [Statement.tokens, Statement.tokensAll_eq, bodyPhrase]

theorem progress_if {inner : Reader Stmt} (hinner : Reads n inner Statement.phrase afterStatement)
    (h : Progress n inner Statement.phrase) : Progress (n + 1) (Grammar.ifBlock inner) ifPhrase := by
  refine ((Progress.bind_shorter (.keyword .ifBlock) (begins_keyword .ifBlock) (.keyword .ifBlock _) fun _ =>
    recovers_expression.bind reads_expression fun _ =>
      recovers_body hinner h (by decide) _).withSpan.labelled _).reshape id ?_
  rintro ⟨pos, cond, body, stop⟩
  simp [Statement.tokens, Statement.tokensAll_eq, bodyPhrase]

theorem progress_statement : Progress n Grammar.statement Statement.phrase := by
  refine Progress.fix reads_statement fun k inner hinner h => ?_
  refine Progress.reshape (((progress_entry .config .configEntry).map _).orElse <|
    ((progress_entry .menuconfig .menuconfigEntry).map _).orElse <| (progress_choice.map _).orElse <|
    (progress_comment.map _).orElse <| (progress_menu hinner h).orElse <| (progress_if hinner h).orElse <|
    progress_source.map _)
    (Sum.elim .config <| Sum.elim .menuconfig <| Sum.elim .choice <| Sum.elim .comment <|
      Sum.elim (fun d => .menu d.1 d.2.1 d.2.2.1 d.2.2.2.1 d.2.2.2.2) <|
      Sum.elim (fun d => .ifBlock d.1 d.2.1 d.2.2.1 d.2.2.2) .source) ?_
  rintro (d | d | d | d | d | d | d) <;> simp [Statement.tokens]

/-- Where a file cannot be read on, its tokens so far begin a derivation. -/
theorem progress_file (id : FileId) : Progress n (Grammar.file id) (File.phrase id) := by
  have hstatements : Recovers n (Reader.many Grammar.statement) Statement.phrase.list :=
    progress_statement.many reads_statement begins_statement
  exact (progress_title.optional.progress.bind reads_titleOption fun _ => hstatements.andReturn _).reshape
    (fun d => ⟨d.1, d.2⟩) fun _ => rfl

end Derivation

end KconfigLang
