import KconfigLang.Proofs.Grammar.Acceptance
import KconfigLang.Proofs.Token.Tokenize
import KconfigLang.Proofs.Tree.Spans

/-!
# Positions do not matter

What a reader makes of a token list depends on the tokens alone: where they stand only decides the spans of
the nodes and of the errors.

- `SpanMaps`: two functions on spans, by which positions in two token lists are compared.
- `Alike`: two readers that treat such lists alike; one lemma for each way to build a reader.
- `Grammar.file_alike`: two files with the same tokens have trees that differ in positions only, or fail alike.
- `parse_matching`: the tree of a text without its positions does not depend on the file number.
- `parse_inFile`: a text that is read under another file number gives the same tree or error in that file.
-/

namespace KconfigLang

/-! ## Comparing positions -/

/-- Two functions on spans: positions in two token lists are the same if the functions give the same span for
them. They respect how spans are built from others. -/
structure SpanMaps where
  /-- Applied to the positions in the first list. -/
  left : Span → Span
  /-- Applied to the positions in the second list. -/
  right : Span → Span
  /-- Joined spans are the same if their parts are. -/
  join : ∀ {s t s' t'}, left s = right t → left s' = right t' → left (s.join s') = right (t.join t')
  /-- A span that is made to end with another one. -/
  stop : ∀ {s t s' t'}, left s = right t → left s' = right t' →
    left { s with stop := s'.stop } = right { t with stop := t'.stop }
  /-- A span that is made to end where a text starts. -/
  stop_zero : ∀ {s t}, left s = right t → left { s with stop := 0 } = right { t with stop := 0 }

namespace SpanMaps

/-- Positions are not compared at all. -/
def blank : SpanMaps :=
  ⟨fun _ => .blank, fun _ => .blank, fun _ _ => rfl, fun _ _ => rfl, fun _ => rfl⟩

theorem join_inFile (id : FileId) (s t : Span) :
    (s.join t).inFile id = (s.inFile id).join (t.inFile id) := by
  by_cases h : t.start < s.start <;> simp [Span.join, Span.inFile, h]

/-- The second list is in the file `id`, and has the bytes of the first one. -/
def inFile (id : FileId) : SpanMaps where
  left := Span.inFile id
  right s := s
  join h h' := by rw [join_inFile, h, h']
  stop := by
    rintro s _ s' _ rfl rfl
    rfl
  stop_zero := by
    rintro s _ rfl
    rfl

variable (M : SpanMaps)

/-- Two values whose spans, changed by the functions, are the same. -/
def Same {α β : Type} (change : (Span → Span) → α → β) (a b : α) : Prop :=
  change M.left a = change M.right b

/-- Two lists whose spans, changed by the functions, are the same. -/
def SameList {α β : Type} (change : (Span → Span) → α → β) (as bs : List α) : Prop :=
  as.map (change M.left) = bs.map (change M.right)

/-- Two options whose spans, changed by the functions, are the same. -/
def SameOption {α β : Type} (change : (Span → Span) → α → β) (x y : Option α) : Prop :=
  x.map (change M.left) = y.map (change M.right)

/-- Two tokens that differ in positions only. -/
def SameLexed (t u : Lexed) : Prop :=
  t.token = u.token ∧ M.left t.span = M.right u.span

/-- Two places with the same tokens to read. -/
structure SamePlace (place place' : Place) : Prop where
  rest : List.Forall₂ M.SameLexed place.rest place'.rest
  index : place.index = place'.index
  stop : ∀ s t, M.left s = M.right t →
    M.left { s with stop := place.stop } = M.right { t with stop := place'.stop }

/-- Two nodes that differ in positions only. -/
structure SameTaken {α : Type} (R : α → α → Prop) (t u : Taken α) : Prop where
  value : R t.value u.value
  after : M.SamePlace t.after u.after
  conflicts : M.SameList TypeConflict.mapSpan t.conflicts u.conflicts

/-- Two outcomes of readers that differ in positions only. -/
structure SameReading {α : Type} (R : α → α → Prop) (r r' : Reading α) : Prop where
  taken : Option.Rel (M.SameTaken R) r.taken r'.taken
  furthest : r.furthest = r'.furthest

variable {M}

theorem SameList.cons {α β : Type} {change : (Span → Span) → α → β} {a b : α} {as bs : List α}
    (hs : M.SameList change as bs) (h : M.Same change a b) : M.SameList change (a :: as) (b :: bs) :=
  List.cons_eq_cons.mpr ⟨h, hs⟩

theorem SameList.append {α β : Type} {change : (Span → Span) → α → β} {as bs as' bs' : List α}
    (h : M.SameList change as bs) (h' : M.SameList change as' bs') :
    M.SameList change (as ++ as') (bs ++ bs') := by
  rw [SameList, List.map_append, List.map_append, h, h']

/-- Joined expressions are the same if their operands are. -/
theorem Same.join {e f e' f' : Expr} (op : BinaryOp) (h : M.Same Expr.mapSpan e f)
    (h' : M.Same Expr.mapSpan e' f') : M.Same Expr.mapSpan (e.join op e') (f.join op f') := by
  have hspan {e f : Expr} (h : M.Same Expr.mapSpan e f) : M.left e.span = M.right f.span := by
    rw [← Expr.span_mapSpan M.left, ← Expr.span_mapSpan M.right]
    exact congrArg Expr.span h
  show Expr.binary (e.mapSpan M.left) op (e'.mapSpan M.left) (M.left _) =
    .binary (f.mapSpan M.right) op (f'.mapSpan M.right) (M.right _)
  rw [M.join (hspan h) (hspan h'), h, h']

theorem SamePlace.length_eq {place place' : Place} (h : M.SamePlace place place') :
    place.rest.length = place'.rest.length :=
  h.rest.length_eq

theorem SameTaken.shorter {α : Type} {R : α → α → Prop} {place place' : Place} {t u : Taken α}
    (h : M.SameTaken R t u) (hplace : M.SamePlace place place') :
    t.after.rest.length < place.rest.length ↔ u.after.rest.length < place'.rest.length := by
  rw [h.after.length_eq, hplace.length_eq]

/-- Both readers failed or both took a node, and their attempts came equally far. -/
theorem SameReading.outcome {α : Type} {R : α → α → Prop} {r r' : Reading α} (h : M.SameReading R r r') :
    (∃ m, r = ⟨none, m⟩ ∧ r' = ⟨none, m⟩) ∨ ∃ t u m,
      r = ⟨some t, m⟩ ∧ r' = ⟨some u, m⟩ ∧ M.SameTaken R t u := by
  obtain ⟨x, m⟩ := r
  obtain ⟨y, m'⟩ := r'
  obtain ⟨htaken, rfl⟩ := h
  cases htaken with
  | none => exact .inl ⟨m, rfl, rfl⟩
  | some htu => exact .inr ⟨_, _, m, rfl, rfl, htu⟩

end SpanMaps

/-! ## Readers that treat positions alike -/

/-- Two readers that take nodes related by `R` where the same tokens are left, or fail alike. -/
def Alike {α : Type} (M : SpanMaps) (R : α → α → Prop) (p q : Reader α) : Prop :=
  ∀ place place' : Place, M.SamePlace place place' → M.SameReading R (p place) (q place')

/-- A reader that takes no node from an empty list. -/
def Reader.NeedsToken {α : Type} (p : Reader α) : Prop :=
  ∀ place : Place, place.rest = [] → (p place).taken = none

namespace Reader.NeedsToken

variable {α β : Type}

theorem token (e : Expected) (f : Token → Option α) : NeedsToken (Reader.token e f) :=
  fun _ h => Reads.taken_token_nil e f h

theorem keyword (k : Keyword) : NeedsToken (Reader.keyword k) :=
  token (.token (.keyword k)) fun u => if u = .keyword k then some () else none

theorem mark (m : Mark) : NeedsToken (Reader.mark m) :=
  token (.token (.mark m)) fun u => if u = .mark m then some () else none

theorem bind {p : Reader α} (h : NeedsToken p) (f : α → Reader β) : NeedsToken (p >>= f) := by
  intro place hplace
  rw [Reads.taken_bind, h place hplace]
  rfl

end Reader.NeedsToken

namespace Alike

open Reader

variable {α β γ : Type} {M : SpanMaps} {R : α → α → Prop} {S : β → β → Prop} {p q p' q' : Reader α}

/-- Both readers fail or both take a node, and their attempts come equally far. -/
theorem outcome (h : Alike M R p q) {place place' : Place} (hsame : M.SamePlace place place') :
    (∃ m, p place = ⟨none, m⟩ ∧ q place' = ⟨none, m⟩) ∨ ∃ t u m,
      p place = ⟨some t, m⟩ ∧ q place' = ⟨some u, m⟩ ∧ M.SameTaken R t u :=
  (h place place' hsame).outcome

theorem nothing {a b : α} (h : R a b) : Alike M R (Pure.pure a) (Pure.pure b) :=
  fun _ _ hsame => ⟨.some ⟨h, hsame, rfl⟩, rfl⟩

theorem report {cs ds : List TypeConflict} (h : M.SameList TypeConflict.mapSpan cs ds) :
    Alike M (fun _ _ => True) (Reader.report cs) (Reader.report ds) :=
  fun _ _ hsame => ⟨.some ⟨trivial, hsame, h⟩, rfl⟩

theorem bind {f g : α → Reader β} (h : Alike M R p q) (hf : ∀ a b, R a b → Alike M S (f a) (g b)) :
    Alike M S (p >>= f) (q >>= g) := by
  intro place place' hsame
  show M.SameReading S (Reader.bind p f place) (Reader.bind q g place')
  simp only [Reader.bind]
  rcases h.outcome hsame with ⟨m, hp, hq⟩ | ⟨t, u, m, hp, hq, htu⟩
  · rw [hp, hq]
    exact ⟨.none, rfl⟩
  · rw [hp, hq]
    rcases (hf _ _ htu.value).outcome htu.after with ⟨n, hf, hg⟩ | ⟨v, w, n, hf, hg, hvw⟩
    · simp only [hf, hg]
      exact ⟨.none, rfl⟩
    · simp only [hf, hg]
      exact ⟨.some ⟨hvw.value, hvw.after, htu.conflicts.append hvw.conflicts⟩, rfl⟩

theorem map {f g : α → β} (h : Alike M R p q) (hf : ∀ a b, R a b → S (f a) (g b)) :
    Alike M S (f <$> p) (g <$> q) :=
  h.bind fun a b hab => nothing (hf a b hab)

/-! ### Tokens, labels and spans -/

theorem token (e : Expected) {f : Token → Option α} (h : ∀ t a, f t = some a → R a a) :
    Alike M R (Reader.token e f) (Reader.token e f) := by
  intro place place' hsame
  obtain ⟨rest, index, stop⟩ := place
  obtain ⟨rest', index', stop'⟩ := place'
  obtain ⟨hrest, rfl, hstop⟩ := hsame
  cases hrest with
  | nil => exact ⟨.none, rfl⟩
  | @cons t u rest rest' htu hrest =>
    simp only [Reader.token, htu.1]
    cases hf : f u.token with
    | none => exact ⟨.none, rfl⟩
    | some a => exact ⟨.some ⟨h _ _ hf, ⟨hrest, rfl, fun s s' hs => M.stop hs htu.2⟩, rfl⟩, rfl⟩

theorem oneOf {f : Token → Option α} (h : ∀ t a, f t = some a → R a a) :
    Alike M R (Reader.oneOf f) (Reader.oneOf f) :=
  token _ h

theorem just (t : Token) : Alike M Eq (Reader.just t) (Reader.just t) := by
  unfold Reader.just
  exact token _ fun _ _ _ => rfl

theorem keyword (k : Keyword) : Alike M Eq (Reader.keyword k) (Reader.keyword k) :=
  just (.keyword k)

theorem mark (m : Mark) : Alike M Eq (Reader.mark m) (Reader.mark m) :=
  just (.mark m)

theorem labelled (c : Construct) (h : Alike M R p q) :
    Alike M R (Reader.labelled c p) (Reader.labelled c q) := by
  intro place place' hsame
  obtain ⟨htaken, hfurthest⟩ := h place place' hsame
  refine ⟨htaken, ?_⟩
  simp only [Reader.labelled, hfurthest, hsame.index]

/-- The span of a node starts with its first token, so a reader that gets one takes at least a token. -/
theorem withSpan {p q : Reader (Span → α)} (hp : p.NeedsToken)
    (h : Alike M (fun v w => ∀ s t, M.left s = M.right t → R (v s) (w t)) p q) :
    Alike M R (Reader.withSpan p) (Reader.withSpan q) := by
  intro place place' hsame
  simp only [Reader.withSpan]
  rcases h.outcome hsame with ⟨m, hm, hm'⟩ | ⟨t, u, m, hm, hm', htu⟩
  · rw [hm, hm']
    exact ⟨.none, rfl⟩
  · rw [hm, hm']
    refine ⟨.some ⟨htu.value _ _ ?_, htu.after, htu.conflicts⟩, rfl⟩
    obtain ⟨rest, index, stop⟩ := place
    obtain ⟨rest', index', stop'⟩ := place'
    cases hsame.rest with
    | nil => exact absurd ((congrArg Reading.taken hm).symm.trans (hp _ rfl)) (Option.some_ne_none _)
    | cons hlexed _ => exact htu.after.stop _ _ hlexed.2

/-! ### Alternatives and repetition -/

theorem orElse (h : Alike M R p q) (h' : Alike M R p' q') : Alike M R (p.orElse p') (q.orElse q') := by
  intro place place' hsame
  simp only [Reader.orElse]
  rcases h.outcome hsame with ⟨m, hp, hq⟩ | ⟨t, u, m, hp, hq, htu⟩
  · obtain ⟨htaken, hfurthest⟩ := h' place place' hsame
    simp only [hp, hq]
    exact ⟨htaken, by rw [hfurthest]⟩
  · simp only [hp, hq]
    exact ⟨.some htu, rfl⟩

theorem optional {change : (Span → Span) → α → β} (h : Alike M (M.Same change) p q) :
    Alike M (M.SameOption change) (Reader.optional p) (Reader.optional q) := by
  intro place place' hsame
  simp only [Reader.optional]
  rcases h.outcome hsame with ⟨m, hp, hq⟩ | ⟨t, u, m, hp, hq, htu⟩
  · simp only [hp, hq]
    exact ⟨.some ⟨rfl, hsame, rfl⟩, rfl⟩
  · simp only [hp, hq]
    exact ⟨.some ⟨congrArg some htu.value, htu.after, htu.conflicts⟩, rfl⟩

theorem many {change : (Span → Span) → α → β} (h : Alike M (M.Same change) p q) :
    Alike M (M.SameList change) (Reader.many p) (Reader.many q) := by
  intro place place' hsame
  induction hlen : place.rest.length using Nat.strongRecOn generalizing place place' with
  | _ k ih =>
    rw [Reader.many.eq_def p, Reader.many.eq_def q]
    rcases h.outcome hsame with ⟨m, hp, hq⟩ | ⟨t, u, m, hp, hq, htu⟩
    · simp only [hp, hq]
      exact ⟨.some ⟨rfl, hsame, rfl⟩, rfl⟩
    · simp only [hp, hq]
      by_cases hshort : t.after.rest.length < place.rest.length
      · rw [if_pos hshort, if_pos ((htu.shorter hsame).mp hshort)]
        rcases (ih _ (hlen ▸ hshort) t.after u.after htu.after rfl).outcome with
          ⟨n, hp', hq'⟩ | ⟨v, w, n, hp', hq', hvw⟩
        · rw [hp', hq']
          exact ⟨.none, rfl⟩
        · rw [hp', hq']
          exact ⟨.some ⟨hvw.value.cons htu.value, hvw.after, htu.conflicts.append hvw.conflicts⟩, rfl⟩
      -- A reader that takes nothing ends the repetition in both lists.
      · rw [if_neg hshort, if_neg ((htu.shorter hsame).not.mp hshort)]
        exact ⟨.some ⟨rfl, hsame, rfl⟩, rfl⟩

theorem many1 {change : (Span → Span) → α → β} (h : Alike M (M.Same change) p q) :
    Alike M (M.SameList change) (Reader.many1 p) (Reader.many1 q) :=
  h.bind fun _ _ hab => h.many.bind fun _ _ habs => nothing (habs.cons hab)

theorem fix {body body' : Reader α → Reader α}
    (h : ∀ inner inner', Alike M R inner inner' → Alike M R (body inner) (body' inner')) :
    Alike M R (Reader.fix body) (Reader.fix body') := by
  intro place place' hsame
  induction hlen : place.rest.length using Nat.strongRecOn generalizing place place' with
  | _ k ih =>
    rw [Reader.fix.eq_def body place, Reader.fix.eq_def body' place']
    refine h _ _ (fun q q' hq => ?_) place place' hsame
    rw [← hsame.length_eq, ← hq.length_eq]
    split
    · rename_i hshort
      exact ih _ (hlen ▸ hshort) q q' hq rfl
    · exact ⟨.none, rfl⟩

end Alike

/-! ## Expressions -/

namespace Grammar

open Reader

variable {M : SpanMaps}

theorem symbol_alike : Alike M (M.Same Ident.mapSpan) symbol symbol := by
  refine .labelled _ (.withSpan (.token _ _) (.oneOf fun t f hf => ?_))
  cases t <;> cases hf
  exact fun _ _ hst => congrArg (Ident.mk _) hst

theorem string_alike : Alike M (M.Same StringNode.mapSpan) string string := by
  refine .labelled _ (.withSpan (.token _ _) (.oneOf fun t f hf => ?_))
  cases t <;> cases hf
  exact fun _ _ hst => congrArg (StringNode.mk _ _) hst

theorem literal_alike : Alike M (M.Same Expr.mapSpan) literal literal := by
  refine .labelled _ (.withSpan (.token _ _) (.oneOf fun t f hf => ?_))
  split at hf <;> cases hf <;> intro s t hst
  all_goals simp only [SpanMaps.Same, Expr.mapSpan, StringNode.mapSpan, hst]

theorem chain_alike (sign : Mark) (op : BinaryOp) {p q : Reader Expr} (h : Alike M (M.Same Expr.mapSpan) p q) :
    Alike M (M.Same Expr.mapSpan) (chain sign op p) (chain sign op q) := by
  refine h.bind fun e f hef => ((Alike.mark sign).bind fun _ _ _ => h).many.bind
    fun es fs hs => .nothing ?_
  induction es generalizing e f fs with
  | nil =>
    obtain rfl : fs = [] := List.map_eq_nil_iff.mp (Eq.symm hs)
    exact hef
  | cons e' es ih =>
    obtain ⟨f', fs, rfl, hf', hfs⟩ := List.map_eq_cons_iff.mp (Eq.symm hs)
    exact ih _ _ (hef.join op hf'.symm) fs hfs.symm

theorem comparison_alike {p q : Reader Expr} (h : Alike M (M.Same Expr.mapSpan) p q) :
    Alike M (M.Same Expr.mapSpan) (comparison p) (comparison q) := by
  have hop : Alike M Eq comparisonOp comparisonOp := .oneOf fun _ _ _ => rfl
  have hright : Alike M (M.Same fun f => Prod.map id (Expr.mapSpan f))
      (do let op ← comparisonOp; let rhs ← p; return (op, rhs))
      (do let op ← comparisonOp; let rhs ← q; return (op, rhs)) :=
    hop.bind fun _ _ hop => h.bind fun _ _ hef => .nothing (Prod.ext hop hef)
  refine h.bind fun e f hef => hright.optional.bind fun x y hxy => .nothing ?_
  cases x with
  | none =>
    obtain rfl : y = none := Option.map_eq_none_iff.mp (Eq.symm hxy)
    exact hef
  | some x =>
    obtain ⟨op, e'⟩ := x
    obtain ⟨⟨op', f'⟩, rfl, hy⟩ := Option.map_eq_some_iff.mp (Eq.symm hxy)
    obtain ⟨rfl, hf'⟩ := Prod.mk.inj hy
    exact hef.join op' hf'.symm

theorem negation_alike {p q : Reader Expr} (h : Alike M (M.Same Expr.mapSpan) p q) :
    Alike M (M.Same Expr.mapSpan) (negation p) (negation q) :=
  .withSpan (.bind (.mark _) _) ((Alike.mark .not).bind fun _ _ _ => h.bind fun _ _ hef =>
    .nothing fun _ _ hst => congrArg₂ Expr.not hef hst)

theorem unary_alike {p q : Reader Expr} (h : Alike M (M.Same Expr.mapSpan) p q) :
    Alike M (M.Same Expr.mapSpan) (unary p) (unary q) := by
  have hsymbol : Alike M (M.Same Expr.mapSpan) (Expr.symbol <$> symbol) (Expr.symbol <$> symbol) :=
    symbol_alike.map fun _ _ hid => congrArg Expr.symbol hid
  have hparens : Alike M (M.Same Expr.mapSpan) (parenthesised p) (parenthesised q) :=
    (Alike.mark _).bind fun _ _ _ => h.bind fun _ _ hef => (Alike.mark _).bind fun _ _ _ =>
      .nothing hef
  refine .fix fun _ _ hself => ?_
  exact (negation_alike hself).orElse (literal_alike.orElse (hsymbol.orElse hparens))

/-- Expressions are the same up to positions if their tokens are. -/
theorem expression_alike : Alike M (M.Same Expr.mapSpan) expression expression :=
  .labelled _ (.fix fun _ _ h => chain_alike _ _ (chain_alike _ _ (comparison_alike (unary_alike h))))

theorem condition_alike : Alike M (M.SameOption Expr.mapSpan) condition condition :=
  ((Alike.keyword _).bind fun _ _ _ => expression_alike).optional

/-! ## Properties -/

theorem typeDecl_alike : Alike M (M.Same Property.mapSpan) typeDecl typeDecl := by
  have hshown : Alike M (M.Same fun f => Prod.map (StringNode.mapSpan f) (Option.map (Expr.mapSpan f)))
      (do let text ← string; let cond ← condition; return (text, cond))
      (do let text ← string; let cond ← condition; return (text, cond)) :=
    string_alike.bind fun _ _ htext => condition_alike.bind fun _ _ hcond =>
      .nothing (Prod.ext htext hcond)
  refine .labelled _ (.withSpan (.bind (.token _ _) _) ((Alike.oneOf (R := Eq) fun _ _ _ => rfl).bind
    fun k _ hk => hshown.optional.bind fun x y hxy => .nothing fun s t hst => ?_))
  subst hk
  cases x with
  | none =>
    obtain rfl : y = none := Option.map_eq_none_iff.mp (Eq.symm hxy)
    exact congrArg (Property.type ⟨k, none, none, ·⟩) hst
  | some x =>
    obtain ⟨y, rfl, hy⟩ := Option.map_eq_some_iff.mp (Eq.symm hxy)
    obtain ⟨htext, hcond⟩ := Prod.mk.inj hy
    show Property.type ⟨k, some (x.1.mapSpan M.left), x.2.map (Expr.mapSpan M.left), M.left s⟩ =
      Property.type ⟨k, some (y.1.mapSpan M.right), y.2.map (Expr.mapSpan M.right), M.right t⟩
    rw [htext, hcond, hst]

theorem prompt_alike : Alike M (M.Same Property.mapSpan) prompt prompt := by
  refine .labelled _ (.withSpan (.bind (.keyword _) _) ((Alike.keyword _).bind fun _ _ _ =>
    string_alike.bind fun a b htext => condition_alike.bind fun x y hcond => .nothing fun s t hst => ?_))
  show Property.prompt (a.mapSpan M.left) (x.map (Expr.mapSpan M.left)) (M.left s) =
    .prompt (b.mapSpan M.right) (y.map (Expr.mapSpan M.right)) (M.right t)
  rw [htext, hcond, hst]

theorem defaultValue_alike (word : Keyword) {literal : Expr → Expr}
    (h : ∀ f e, (literal e).mapSpan f = literal (e.mapSpan f)) :
    Alike M (fun v w => ∀ s t, M.left s = M.right t → M.Same DefaultValue.mapSpan (v s) (w t))
      (defaultValue word literal) (defaultValue word literal) := by
  refine (Alike.keyword _).bind fun _ _ _ => expression_alike.bind fun e f hef =>
    condition_alike.bind fun x y hcond => .nothing fun s t hst => ?_
  show DefaultValue.mk ((literal e).mapSpan M.left) (x.map (Expr.mapSpan M.left)) (M.left s) =
    .mk ((literal f).mapSpan M.right) (y.map (Expr.mapSpan M.right)) (M.right t)
  rw [h, h, hef, hcond, hst]

theorem default_alike : Alike M (M.Same Property.mapSpan) default default :=
  .labelled _ (.withSpan (.bind (.bind (.keyword _) _) _)
    ((defaultValue_alike .default Expr.mapSpan_tristateLiteral).bind fun _ _ hv =>
      .nothing fun s t hst => congrArg Property.default (hv s t hst)))

theorem defBool_alike : Alike M (M.Same Property.mapSpan) defBool defBool :=
  .labelled _ (.withSpan (.bind (.bind (.keyword _) _) _)
    ((defaultValue_alike .defBool Expr.mapSpan_boolLiteral).bind fun _ _ hv =>
      .nothing fun s t hst => congrArg Property.defBool (hv s t hst)))

theorem defTristate_alike : Alike M (M.Same Property.mapSpan) defTristate defTristate :=
  .labelled _ (.withSpan (.bind (.bind (.keyword _) _) _)
    ((defaultValue_alike .defTristate Expr.mapSpan_tristateLiteral).bind fun _ _ hv =>
      .nothing fun s t hst => congrArg Property.defTristate (hv s t hst)))

theorem dependsOn_alike : Alike M (M.Same Property.mapSpan) dependsOn dependsOn :=
  .labelled _ (.withSpan (.bind (.keyword _) _) ((Alike.keyword _).bind fun _ _ _ =>
    (Alike.keyword _).bind fun _ _ _ => expression_alike.bind fun _ _ hef =>
      .nothing fun _ _ hst => congrArg₂ Property.dependsOn hef hst))

theorem visibleIf_alike : Alike M (M.Same Property.mapSpan) visibleIf visibleIf :=
  .labelled _ (.withSpan (.bind (.keyword _) _) ((Alike.keyword _).bind fun _ _ _ =>
    (Alike.keyword _).bind fun _ _ _ => expression_alike.bind fun _ _ hef =>
      .nothing fun _ _ hst => congrArg₂ Property.visible hef hst))

theorem reference_alike (word : Keyword) :
    Alike M (fun v w => ∀ s t, M.left s = M.right t → M.Same Reference.mapSpan (v s) (w t)) (reference word)
      (reference word) := by
  refine (Alike.keyword _).bind fun _ _ _ => symbol_alike.bind fun a b hid =>
    condition_alike.bind fun x y hcond => .nothing fun s t hst => ?_
  show Reference.mk (a.mapSpan M.left) (x.map (Expr.mapSpan M.left)) (M.left s) =
    .mk (b.mapSpan M.right) (y.map (Expr.mapSpan M.right)) (M.right t)
  rw [hid, hcond, hst]

theorem select_alike : Alike M (M.Same Property.mapSpan) select select :=
  .labelled _ (.withSpan (.bind (.bind (.keyword _) _) _) ((reference_alike .select).bind fun _ _ hv =>
    .nothing fun s t hst => congrArg Property.select (hv s t hst)))

theorem imply_alike : Alike M (M.Same Property.mapSpan) imply imply :=
  .labelled _ (.withSpan (.bind (.bind (.keyword _) _) _) ((reference_alike .imply).bind fun _ _ hv =>
    .nothing fun s t hst => congrArg Property.imply (hv s t hst)))

theorem defaultMember_alike : Alike M (M.Same Property.mapSpan) defaultMember defaultMember :=
  .labelled _ (.withSpan (.bind (.bind (.keyword _) _) _) ((reference_alike .default).bind fun _ _ hv =>
    .nothing fun s t hst => congrArg Property.defaultMember (hv s t hst)))

theorem bound_alike : Alike M (M.Same Expr.mapSpan) bound bound :=
  literal_alike.orElse (symbol_alike.map fun _ _ hid => congrArg Expr.symbol hid)

theorem range_alike : Alike M (M.Same Property.mapSpan) range range := by
  refine .labelled _ (.withSpan (.bind (.keyword _) _) ((Alike.keyword _).bind fun _ _ _ => bound_alike.bind
    fun a b hlow => bound_alike.bind fun c d hhigh => condition_alike.bind fun x y hcond =>
      .nothing fun s t hst => ?_))
  show Property.range (a.mapSpan M.left) (c.mapSpan M.left) (x.map (Expr.mapSpan M.left)) (M.left s) =
    .range (b.mapSpan M.right) (d.mapSpan M.right) (y.map (Expr.mapSpan M.right)) (M.right t)
  rw [hlow, hhigh, hcond, hst]

theorem help_alike : Alike M (M.Same Property.mapSpan) help help := by
  refine .labelled _ (.withSpan (.token _ _) (.oneOf fun t f hf => ?_))
  cases t <;> cases hf
  exact fun _ _ hst => congrArg (Property.help _) hst

theorem option_alike : Alike M (M.Same Property.mapSpan) option option := by
  refine .labelled _ (.withSpan (.bind (.keyword _) _) ((Alike.keyword _).bind fun _ _ _ =>
    (Alike.oneOf (R := Eq) fun _ _ _ => rfl).bind fun name _ hname =>
      ((Alike.mark .equal).bind fun _ _ _ => string_alike).optional.bind fun x y hvalue =>
        .nothing fun s t hst => ?_))
  subst hname
  show Property.option name (x.map (StringNode.mapSpan M.left)) (M.left s) =
    .option name (y.map (StringNode.mapSpan M.right)) (M.right t)
  rw [hvalue, hst]

theorem entryProperty_alike : Alike M (M.Same Property.mapSpan) entryProperty entryProperty :=
  typeDecl_alike.orElse <| prompt_alike.orElse <| default_alike.orElse <| defBool_alike.orElse <|
    defTristate_alike.orElse <| dependsOn_alike.orElse <| select_alike.orElse <|
    imply_alike.orElse <| range_alike.orElse <| help_alike.orElse option_alike

theorem choiceProperty_alike : Alike M (M.Same Property.mapSpan) choiceProperty choiceProperty :=
  typeDecl_alike.orElse <| prompt_alike.orElse <| defaultMember_alike.orElse <|
    dependsOn_alike.orElse <| help_alike.orElse option_alike

theorem menuProperty_alike : Alike M (M.Same Property.mapSpan) menuProperty menuProperty :=
  dependsOn_alike.orElse visibleIf_alike

/-! ## Statements -/

/-- Which types conflict does not depend on where they stand. -/
theorem typeConflict?_mapSpan (f : Span → Span) (ps : List Property) :
    typeConflict? (ps.map (Property.mapSpan f)) = (typeConflict? ps).map (TypeConflict.mapSpan f) := by
  have htypes : (ps.map (Property.mapSpan f)).filterMap declaredType? =
      (ps.filterMap declaredType?).map (TypeDecl.mapSpan f) := by
    rw [List.filterMap_map, List.map_filterMap]
    congr 1
    funext p
    cases p <;> rfl
  unfold typeConflict?
  rw [htypes]
  match ps.filterMap declaredType? with
  | [] | [_] | _ :: _ :: _ => rfl

theorem typeConflict_alike {ps qs : List Property} (h : M.SameList Property.mapSpan ps qs) :
    M.SameList TypeConflict.mapSpan (typeConflict? ps).toList (typeConflict? qs).toList := by
  have hconflict : (typeConflict? ps).map (TypeConflict.mapSpan M.left) =
      (typeConflict? qs).map (TypeConflict.mapSpan M.right) := by
    rw [← typeConflict?_mapSpan, ← typeConflict?_mapSpan]
    exact congrArg typeConflict? h
  show (typeConflict? ps).toList.map _ = (typeConflict? qs).toList.map _
  rw [← Option.toList_map, ← Option.toList_map, hconflict]

theorem entry_alike (word : Keyword) (name : Construct) :
    Alike M (M.Same Config.mapSpan) (entry word name) (entry word name) := by
  refine .labelled _ (.withSpan (.bind (.keyword _) _) ((Alike.keyword _).bind fun _ _ _ => symbol_alike.bind
    fun a b hid => entryProperty_alike.many.bind fun ps qs hps =>
      (Alike.report (typeConflict_alike hps)).bind fun _ _ _ => .nothing fun s t hst => ?_))
  show Config.mk (a.mapSpan M.left) (ps.map (Property.mapSpan M.left)) (M.left s) =
    .mk (b.mapSpan M.right) (qs.map (Property.mapSpan M.right)) (M.right t)
  rw [hid, hps, hst]

theorem choice_alike : Alike M (M.Same Choice.mapSpan) choice choice := by
  refine .labelled _ (.withSpan (.bind (.keyword _) _) ((Alike.keyword _).bind fun _ _ _ =>
    choiceProperty_alike.many.bind fun ps qs hps => (entry_alike _ _).many1.bind fun cs ds hcs =>
      (Alike.keyword _).bind fun _ _ _ => .nothing fun s t hst => ?_))
  show Choice.mk (ps.map (Property.mapSpan M.left)) (cs.map (Config.mapSpan M.left)) (M.left s) =
    .mk (qs.map (Property.mapSpan M.right)) (ds.map (Config.mapSpan M.right)) (M.right t)
  rw [hps, hcs, hst]

theorem comment_alike : Alike M (M.Same Comment.mapSpan) comment comment := by
  refine .labelled _ (.withSpan (.bind (.keyword _) _) ((Alike.keyword _).bind fun _ _ _ => string_alike.bind
    fun a b htext => dependsOn_alike.many.bind fun ps qs hps => .nothing fun s t hst => ?_))
  show Comment.mk (a.mapSpan M.left) (ps.map (Property.mapSpan M.left)) (M.left s) =
    .mk (b.mapSpan M.right) (qs.map (Property.mapSpan M.right)) (M.right t)
  rw [htext, hps, hst]

theorem menu_alike {p q : Reader Stmt} (h : Alike M (M.Same Stmt.mapSpan) p q) :
    Alike M (M.Same Stmt.mapSpan) (menu p) (menu q) := by
  refine .labelled _ (.withSpan (.bind (.keyword _) _) ((Alike.keyword _).bind fun _ _ _ => string_alike.bind
    fun a b htitle => menuProperty_alike.many.bind fun ps qs hps => h.many.bind fun ss ts hss =>
      (Alike.keyword _).bind fun _ _ _ => .nothing fun s t hst => ?_))
  show Stmt.menu ⟨a.mapSpan M.left, ps.map (Property.mapSpan M.left), M.left s⟩ (Stmt.mapSpanAll M.left ss) =
    .menu ⟨b.mapSpan M.right, qs.map (Property.mapSpan M.right), M.right t⟩ (Stmt.mapSpanAll M.right ts)
  rw [htitle, hps, hst, Stmt.mapSpanAll_eq_map, Stmt.mapSpanAll_eq_map, hss]

theorem ifBlock_alike {p q : Reader Stmt} (h : Alike M (M.Same Stmt.mapSpan) p q) :
    Alike M (M.Same Stmt.mapSpan) (ifBlock p) (ifBlock q) := by
  refine .labelled _ (.withSpan (.bind (.keyword _) _) ((Alike.keyword _).bind fun _ _ _ =>
    expression_alike.bind fun e f hef => h.many.bind fun ss ts hss => (Alike.keyword _).bind fun _ _ _ =>
      .nothing fun s t hst => ?_))
  show Stmt.ifBlock (e.mapSpan M.left) (Stmt.mapSpanAll M.left ss) (M.left s) =
    .ifBlock (f.mapSpan M.right) (Stmt.mapSpanAll M.right ts) (M.right t)
  rw [hef, hst, Stmt.mapSpanAll_eq_map, Stmt.mapSpanAll_eq_map, hss]

theorem source_alike : Alike M (M.Same Source.mapSpan) source source := by
  refine .labelled _ (.withSpan (.bind (.token _ _) _) ((Alike.oneOf (R := Eq) fun _ _ _ => rfl).bind
    fun kind _ hkind => string_alike.bind fun a b hpath => .nothing fun s t hst => ?_))
  subst hkind
  exact congrArg₂ (Source.mk kind) hpath hst

theorem statement_alike : Alike M (M.Same Stmt.mapSpan) statement statement := by
  have hconfig : Alike M (M.Same Stmt.mapSpan) (Stmt.config <$> configEntry) (Stmt.config <$> configEntry) :=
    (entry_alike _ _).map fun _ _ hc => congrArg Stmt.config hc
  have hmenuconfig : Alike M (M.Same Stmt.mapSpan) (Stmt.menuconfig <$> menuconfigEntry)
      (Stmt.menuconfig <$> menuconfigEntry) :=
    (entry_alike _ _).map fun _ _ hc => congrArg Stmt.menuconfig hc
  have hchoice : Alike M (M.Same Stmt.mapSpan) (Stmt.choice <$> choice) (Stmt.choice <$> choice) :=
    choice_alike.map fun _ _ hc => congrArg Stmt.choice hc
  have hcomment : Alike M (M.Same Stmt.mapSpan) (Stmt.comment <$> comment) (Stmt.comment <$> comment) :=
    comment_alike.map fun _ _ hc => congrArg Stmt.comment hc
  have hsource : Alike M (M.Same Stmt.mapSpan) (Stmt.source <$> source) (Stmt.source <$> source) :=
    source_alike.map fun _ _ hs => congrArg Stmt.source hs
  refine .fix fun _ _ h => ?_
  exact hconfig.orElse <| hmenuconfig.orElse <| hchoice.orElse <| hcomment.orElse <|
    (menu_alike h).orElse <| (ifBlock_alike h).orElse hsource

theorem mainMenu_alike : Alike M (M.Same MainMenu.mapSpan) mainMenu mainMenu :=
  .labelled _ (.withSpan (.bind (.keyword _) _) ((Alike.keyword _).bind fun _ _ _ =>
    string_alike.bind fun _ _ htitle => .nothing fun _ _ hst => congrArg₂ MainMenu.mk htitle hst))

/-- Files are the same up to positions if their tokens are. -/
theorem file_alike (id id' : FileId) :
    Alike M (fun r r' => r.path = r'.path ∧ r.file = id ∧ r'.file = id' ∧
      M.SameOption MainMenu.mapSpan r.mainMenu r'.mainMenu ∧
      M.Same Stmt.mapSpanAll r.statements r'.statements) (file id) (file id') := by
  refine mainMenu_alike.optional.bind fun x y hxy => statement_alike.many.bind fun ss ts hss =>
    .nothing ⟨rfl, rfl, rfl, hxy, ?_⟩
  show Stmt.mapSpanAll M.left ss = Stmt.mapSpanAll M.right ts
  rw [Stmt.mapSpanAll_eq_map, Stmt.mapSpanAll_eq_map]
  exact hss

end Grammar

/-! ## Whole texts -/

namespace SpanMaps

variable {M : SpanMaps} {ts us : List Lexed}

theorem forall₂_blank (h : SameTokens ts us) : List.Forall₂ blank.SameLexed ts us := by
  induction ts generalizing us with
  | nil =>
    obtain rfl : us = [] := List.map_eq_nil_iff.mp h.symm
    exact .nil
  | cons t ts ih =>
    obtain ⟨u, us, rfl, htoken, hmore⟩ := List.map_eq_cons_iff.mp h.symm
    exact .cons ⟨htoken.symm, rfl⟩ (ih hmore.symm)

/-- Spans that are the same start in the same order. -/
def KeepsOrder (M : SpanMaps) : Prop :=
  ∀ {s t s' t'}, M.left s = M.right t → M.left s' = M.right t' → (s'.start < s.start ↔ t'.start < t.start)

theorem KeepsOrder.beq_eq (hM : M.KeepsOrder) {s t s' t' : Span} (h : M.left s = M.right t)
    (h' : M.left s' = M.right t') : (s'.start == s.start) = (t'.start == t.start) := by
  have hlt := hM h h'
  have hgt := hM h' h
  rw [Bool.eq_iff_iff, beq_iff_eq, beq_iff_eq]
  omega

theorem foldl_takeWhile_eq (h : List.Forall₂ M.SameLexed ts us) (hM : M.KeepsOrder) {s s' : Span}
    (hspan : M.left s = M.right s') (n : Nesting) :
    (ts.takeWhile (·.span.start < s.start)).foldl (fun n t => n.step t.token) n =
      (us.takeWhile (·.span.start < s'.start)).foldl (fun n t => n.step t.token) n := by
  induction h generalizing n with
  | nil => rfl
  | @cons t u ts us htu _ ih =>
    have hbefore : decide (t.span.start < s.start) = decide (u.span.start < s'.start) :=
      decide_eq_decide.mpr (hM hspan htu.2)
    rw [List.takeWhile_cons, List.takeWhile_cons, hbefore]
    split
    · rw [List.foldl_cons, List.foldl_cons, htu.1]
      exact ih _
    · rfl

/-- The construct around an error depends on the order in which the tokens start and on nothing else. -/
theorem enclosing?_eq (h : List.Forall₂ M.SameLexed ts us) (hM : M.KeepsOrder) {s s' : Span}
    (hspan : M.left s = M.right s') (atEnd : Bool) :
    enclosing? ts s.start atEnd = enclosing? us s'.start atEnd := by
  simp only [enclosing?, foldl_takeWhile_eq h hM hspan]

theorem getElem?_cases (h : List.Forall₂ M.SameLexed ts us) (i : Nat) :
    (ts[i]? = none ∧ us[i]? = none) ∨ ∃ t u, ts[i]? = some t ∧ us[i]? = some u ∧ M.SameLexed t u := by
  by_cases hi : i < ts.length
  · have hi' : i < us.length := h.length_eq ▸ hi
    exact .inr ⟨ts[i], us[i], List.getElem?_eq_getElem hi, List.getElem?_eq_getElem hi', h.get hi hi'⟩
  · exact .inl ⟨List.getElem?_eq_none (Nat.le_of_not_lt hi),
      List.getElem?_eq_none (h.length_eq ▸ Nat.le_of_not_lt hi)⟩

theorem ofFurthest_same (h : List.Forall₂ M.SameLexed ts us) (hM : M.KeepsOrder) {loc loc' : Locator}
    (hend : M.left (endSpan loc ts) = M.right (endSpan loc' us)) (mark : Furthest) :
    M.Same ParseError.mapSpan (.ofFurthest loc ts mark) (.ofFurthest loc' us mark) := by
  unfold Same ParseError.ofFurthest
  rcases getElem?_cases h mark.index with ⟨hts, hus⟩ | ⟨t, u, hts, hus, htu⟩
  · simp only [hts, hus, ParseError.mapSpan, Option.map_none, Option.getD_none, ParseCause.mapSpan, hend,
      enclosing?_eq h hM hend]
  · simp only [hts, hus, ParseError.mapSpan, Option.map_some, Option.getD_some, ParseCause.mapSpan, htu.1,
      htu.2, enclosing?_eq h hM htu.2, Option.isNone_some]

theorem find?_token_eq (h : List.Forall₂ M.SameLexed ts us) (hM : M.KeepsOrder) {s s' : Span}
    (hspan : M.left s = M.right s') :
    (ts.find? (·.span.start == s.start)).map Lexed.token =
      (us.find? (·.span.start == s'.start)).map Lexed.token := by
  induction h with
  | nil => rfl
  | @cons t u ts us htu _ ih =>
    rw [List.find?_cons, List.find?_cons, hM.beq_eq hspan htu.2]
    split
    · rw [Option.map_some, Option.map_some, htu.1]
    · exact ih

theorem ofConflict_same (h : List.Forall₂ M.SameLexed ts us) (hM : M.KeepsOrder) {c d : TypeConflict}
    (hcd : M.Same TypeConflict.mapSpan c d) :
    M.Same ParseError.mapSpan (.ofConflict ts c) (.ofConflict us d) := by
  have hspan : M.left c.second.span = M.right d.second.span :=
    congrArg (fun c : TypeConflict => c.second.span) hcd
  have hfound := find?_token_eq h hM hspan
  have hnone := congrArg Option.isNone hfound
  rw [Option.isNone_map, Option.isNone_map] at hnone
  unfold Same ParseError.ofConflict
  simp only [ParseError.mapSpan, ParseCause.mapSpan, hspan, hfound, hnone, enclosing?_eq h hM hspan]
  rw [hcd]

end SpanMaps

namespace Alike

variable {α : Type} {M : SpanMaps} {R : α → α → Prop} {p q : Reader α} {ts us : List Lexed}

/-- Readers that are alike accept the same token lists, wherever the tokens stand; and where the tokens start
in the same order, they reject them with the same error. -/
theorem parse (h : Alike M R p q) (hsame : List.Forall₂ M.SameLexed ts us) (loc loc' : Locator) :
    (∃ v w, p.parse loc ts = .ok v ∧ q.parse loc' us = .ok w ∧ R v w) ∨
      ∃ e e', p.parse loc ts = .error e ∧ q.parse loc' us = .error e' ∧
        (M.KeepsOrder → M.left (endSpan loc ts) = M.right (endSpan loc' us) →
          M.Same ParseError.mapSpan e e') := by
  have hplace : M.SamePlace ⟨ts, 0, 0⟩ ⟨us, 0, 0⟩ := ⟨hsame, rfl, fun _ _ h => M.stop_zero h⟩
  simp only [Reader.parse]
  rcases h.outcome hplace with ⟨m, hp, hq⟩ | ⟨⟨v, after, cs⟩, ⟨w, after', ds⟩, m, hp, hq, htu⟩
  · simp only [hp, hq, Option.map_none, Option.getD_none]
    refine .inr ⟨_, _, rfl, rfl, fun hM hend => ?_⟩
    rw [hsame.length_eq]
    exact SpanMaps.ofFurthest_same hsame hM hend _
  · obtain ⟨hvalue, hafter, hconflicts⟩ := htu
    simp only [hp, hq, Option.map_some, Option.getD_some]
    cases cs with
    | cons c cs =>
      obtain ⟨d, ds, rfl, hd, -⟩ := List.map_eq_cons_iff.mp (Eq.symm hconflicts)
      exact .inr ⟨_, _, rfl, rfl, fun hM _ => SpanMaps.ofConflict_same hsame hM hd.symm⟩
    | nil =>
      obtain rfl : ds = [] := List.map_eq_nil_iff.mp (Eq.symm hconflicts)
      obtain ⟨rest, index, stop⟩ := after
      obtain ⟨rest', index', stop'⟩ := after'
      obtain ⟨hrest, rfl, -⟩ := hafter
      cases hrest with
      | nil => exact .inl ⟨v, w, rfl, rfl, hvalue⟩
      | cons _ _ =>
        refine .inr ⟨_, _, rfl, rfl, fun hM hend => ?_⟩
        rw [hsame.length_eq]
        exact SpanMaps.ofFurthest_same hsame hM hend _

/-- Which tokens are accepted does not depend on their positions. -/
theorem parse_sameTokens (h : Alike .blank R p q) (hsame : SameTokens ts us) {loc : Locator} {v : α}
    (hv : p.parse loc ts = .ok v) (loc' : Locator) : ∃ w, q.parse loc' us = .ok w ∧ R v w := by
  rcases h.parse (SpanMaps.forall₂_blank hsame) loc loc' with ⟨v', w, hv', hw, hR⟩ | ⟨e, -, he, -, -⟩
  · obtain rfl : v' = v := Except.ok.inj (hv'.symm.trans hv)
    exact ⟨w, hw, hR⟩
  · exact nomatch he.symm.trans hv

end Alike

/-- A text that is read under another file number gives the same tree or the same error in that file. -/
theorem parse_inFile (id id' : FileId) (text : String) :
    parse id' text =
      ((parse id text).map (Root.inFile id')).mapError (SyntaxError.mapSpan (Span.inFile id')) := by
  simp only [parse, Reader.parseText, tokenize_inFile id id']
  cases tokenize (Locator.ofChars id text.toList) text.toList with
  | error e => rfl
  | ok ts =>
    have hlexed : List.Forall₂ (SpanMaps.inFile id').SameLexed ts (ts.map (Lexed.inFile id')) := by
      rw [List.forall₂_map_right_iff, List.forall₂_same]
      exact fun t _ => ⟨rfl, rfl⟩
    have horder : (SpanMaps.inFile id').KeepsOrder := by
      rintro s _ s' _ rfl rfl
      rfl
    have hend : (endSpan (.ofChars id text.toList) ts).inFile id' =
        endSpan (.ofChars id' text.toList) (ts.map (Lexed.inFile id')) := by
      unfold endSpan
      rw [List.getLast?_map, Option.map_map]
      rfl
    rcases (Grammar.file_alike id id').parse hlexed (.ofChars id text.toList) (.ofChars id' text.toList) with
      ⟨⟨_, _, title, block⟩, ⟨_, _, title', block'⟩, hv, hw, hpath, -, hid, htitle, hblock⟩ |
        ⟨e, e', he, he', hsame⟩
    · have htitle' : title' = title.map (MainMenu.mapSpan (Span.inFile id')) := by
        simpa [SpanMaps.SameOption, SpanMaps.inFile, Option.map_id_fun'] using htitle.symm
      have hblock' : block' = Stmt.mapSpanAll (Span.inFile id') block := by
        simpa [SpanMaps.Same, SpanMaps.inFile] using hblock.symm
      simp only at hpath hid
      simp only [Except.map, Except.mapError, hv, hw, ← hpath, hid, htitle', hblock']
      rfl
    · have he'' : e' = e.mapSpan (Span.inFile id') := by
        simpa [SpanMaps.Same, SpanMaps.inFile] using (hsame horder hend).symm
      simp only [Except.map, Except.mapError, he, he', he'']
      rfl

/-- A tree that was read is a tree of its file, all spans included. -/
theorem inFile_of_parse {id : FileId} {text : String} {tree : Root} (h : parse id text = .ok tree) :
    tree.inFile id = tree := by
  have hagain := parse_inFile id id text
  rw [h] at hagain
  exact (Except.ok.inj hagain).symm

/-- The tree of a text without its positions does not depend on its number. -/
theorem parse_matching {id : FileId} {text : String} {root : Root} (h : parse id text = .ok root)
    (id' : FileId) : ∃ root', parse id' text = .ok root' ∧ Matching Root.erase root root' := by
  refine ⟨root.inFile id', by rw [parse_inFile id, h]; rfl, ?_⟩
  rw [Matching, Root.erase_inFile]

end KconfigLang
