import KconfigLang.Grammar.Reader
import Mathlib.Tactic.Simps.Basic

/-!
# Phrases

A phrase is one way in which the grammar writes a node: some derivations, each with the tokens it stands for
and the node that is made of them. A reader reads a phrase if it takes derivations only, takes every derivation
that nothing continues, and if no two derivations have the same tokens.

- `Phrase`: derivations with their tokens and nodes.
- `Precedes` and `Phrase.Leads`: which tokens may follow a derivation without continuing it.
- `Reads`: a reader reads a phrase, where fewer than `n` tokens are left.
- `Reads.bind`, `Reads.many`, `Reads.orElse`, `Reads.fix`: every way to build a reader builds its phrase.

Alternatives start again where they began, so a reader and a grammar need not agree; they do because the first
token tells the alternatives apart and because what may follow a derivation never continues it.
-/

namespace KconfigLang

/-! ## Places -/

/-- The place behind the tokens `ts`. -/
def Place.past (place : Place) (ts : List Lexed) : Place :=
  ⟨place.rest.drop ts.length, place.index + ts.length,
    (ts.getLast?.map (·.span.stop)).getD place.stop⟩

theorem Place.rest_past {place : Place} {ts rest : List Lexed} (h : place.rest = ts ++ rest) :
    (place.past ts).rest = rest := by
  simp [Place.past, h]

@[simp] theorem Place.past_past (place : Place) (ts us : List Lexed) :
    (place.past ts).past us = place.past (ts ++ us) := by
  simp only [Place.past, List.drop_drop, List.length_append, Nat.add_assoc, List.getLast?_append]
  cases us.getLast? <;> simp

/-- The span from the first to the last of some tokens. -/
def spanOf (ts : List Lexed) : Span :=
  { (ts.head?.map Lexed.span).getD default with stop := (ts.getLast?.map (·.span.stop)).getD 0 }

theorem Place.stop_past {place : Place} {ts : List Lexed} (h : ts ≠ []) :
    (place.past ts).stop = (spanOf ts).stop := by
  simp [Place.past, spanOf, List.getLast?_eq_some_getLast h]

/-- The next token, if there is one, is in a set of tokens. -/
def Precedes (follow : Token → Bool) (rest : List Lexed) : Prop :=
  ∀ t ∈ rest.head?, follow t.token = true

@[simp] theorem precedes_nil (follow : Token → Bool) : Precedes follow [] := by
  simp [Precedes]

@[simp] theorem precedes_cons {follow : Token → Bool} {t : Lexed} {ts : List Lexed} :
    Precedes follow (t :: ts) ↔ follow t.token = true := by
  simp [Precedes]

theorem Precedes.mono {follow follow' : Token → Bool} {rest : List Lexed} (h : Precedes follow rest)
    (hf : ∀ t, follow t = true → follow' t = true) : Precedes follow' rest :=
  fun t ht => hf _ (h t ht)

/-- No token is in both of two sets. -/
def Apart (start start' : Token → Bool) : Prop :=
  ∀ t, start' t = true → start t = false

theorem apart_eq {start : Token → Bool} {u : Token} (h : start u = false) : Apart (· == u) start := by
  intro t ht
  refine beq_false_of_ne ?_
  rintro rfl
  simp [h] at ht

theorem apart_of_eq {start : Token → Bool} {u : Token} (h : start u = false) :
    Apart start (· == u) := by
  intro t ht
  obtain rfl : t = u := by simpa using ht
  exact h

theorem Apart.or {start start₁ start₂ : Token → Bool} (h₁ : Apart start start₁)
    (h₂ : Apart start start₂) : Apart start fun t => start₁ t || start₂ t :=
  fun t ht => ((Bool.or_eq_true _ _).mp ht).elim (h₁ t) (h₂ t)

/-- The set of all tokens: nothing continues the derivation. -/
def anyToken (_ : Token) : Bool :=
  true

@[simp] theorem precedes_anyToken (rest : List Lexed) : Precedes anyToken rest :=
  fun _ _ => rfl

/-! ## Phrases -/

/-- Derivations of type `D` that stand for nodes of type `α`. -/
structure Phrase (D α : Type) where
  /-- The tokens that a derivation writes. -/
  tokens : D → List Lexed
  /-- The node that it stands for. -/
  tree : D → α
  /-- The conflicts of types inside it. -/
  conflicts : D → List TypeConflict

namespace Phrase

variable {D E α β : Type}

/-- Writes nothing and reports conflicts. -/
@[simps]
def nothing (a : α) (conflicts : List TypeConflict) : Phrase Unit α :=
  ⟨fun _ => [], fun _ => a, fun _ => conflicts⟩

/-- One token. -/
@[simps]
def token (word : D → Lexed) (tree : D → α) : Phrase D α :=
  ⟨fun d => [word d], tree, fun _ => []⟩

/-- One phrase and then another that depends on it. -/
@[simps]
def seq (P : Phrase D α) (Q : D → Phrase E β) : Phrase (D × E) β where
  tokens d := P.tokens d.1 ++ (Q d.1).tokens d.2
  tree d := (Q d.1).tree d.2
  conflicts d := P.conflicts d.1 ++ (Q d.1).conflicts d.2

/-- A phrase whose node is used to make another one. -/
@[simps]
def map (P : Phrase D α) (f : α → β) : Phrase D β :=
  { P with tree := fun d => f (P.tree d) }

/-- A phrase whose node gets the span of its tokens. -/
@[simps]
def spanned (P : Phrase D (Span → α)) : Phrase D α :=
  { P with tree := fun d => P.tree d (spanOf (P.tokens d)) }

/-- One of two phrases. -/
@[simps]
def sum (P : Phrase D α) (Q : Phrase E α) : Phrase (D ⊕ E) α where
  tokens := Sum.elim P.tokens Q.tokens
  tree := Sum.elim P.tree Q.tree
  conflicts := Sum.elim P.conflicts Q.conflicts

/-- A phrase or nothing. -/
@[simps]
def option (P : Phrase D α) : Phrase (Option D) (Option α) where
  tokens d := (d.map P.tokens).getD []
  tree d := d.map P.tree
  conflicts d := (d.map P.conflicts).getD []

/-- A phrase any number of times. -/
@[simps]
def list (P : Phrase D α) : Phrase (List D) (List α) where
  tokens ds := ds.flatMap P.tokens
  tree ds := ds.map P.tree
  conflicts ds := ds.flatMap P.conflicts

/-- A phrase writes a token of a set first. -/
def Begins (P : Phrase D α) (start : Token → Bool) : Prop :=
  ∀ d, ∃ t ts, P.tokens d = t :: ts ∧ start t.token = true

/-- Before a phrase that a token of `follow` follows stands what a token of `before` may follow. -/
def Leads (P : Phrase D α) (follow before : Token → Bool) : Prop :=
  ∀ d rest, Precedes follow rest → Precedes before (P.tokens d ++ rest)

theorem Begins.tokens_ne_nil {P : Phrase D α} {start : Token → Bool} (h : P.Begins start) (d : D) :
    P.tokens d ≠ [] := by
  obtain ⟨t, ts, hts, -⟩ := h d
  simp [hts]

theorem Begins.append {P : Phrase D α} {start : Token → Bool} (h : P.Begins start) (d : D)
    (us : List Lexed) : ∃ t ts, P.tokens d ++ us = t :: ts ∧ start t.token = true := by
  obtain ⟨t, ts, hts, hstart⟩ := h d
  exact ⟨t, ts ++ us, by simp [hts], hstart⟩

theorem Begins.seq {P : Phrase D α} {start : Token → Bool} (h : P.Begins start)
    (Q : D → Phrase E β) : (P.seq Q).Begins start :=
  fun d => h.append d.1 ((Q d.1).tokens d.2)

theorem Begins.map {P : Phrase D α} {start : Token → Bool} (h : P.Begins start) (f : α → β) :
    (P.map f).Begins start :=
  h

theorem Begins.spanned {P : Phrase D (Span → α)} {start : Token → Bool} (h : P.Begins start) :
    P.spanned.Begins start :=
  h

theorem Begins.sum {P : Phrase D α} {Q : Phrase E α} {start start' : Token → Bool}
    (hP : P.Begins start) (hQ : Q.Begins start') :
    (P.sum Q).Begins fun t => start t || start' t := by
  rintro (d | e)
  · obtain ⟨t, ts, hts, hstart⟩ := hP d
    exact ⟨t, ts, hts, by simp [hstart]⟩
  · obtain ⟨t, ts, hts, hstart⟩ := hQ e
    exact ⟨t, ts, hts, by simp [hstart]⟩

theorem begins_token {word : D → Lexed} {tree : D → α} {start : Token → Bool}
    (h : ∀ d, start (word d).token = true) : (Phrase.token word tree).Begins start :=
  fun d => ⟨word d, [], rfl, h d⟩

theorem leads_anyToken (P : Phrase D α) (follow : Token → Bool) : P.Leads follow anyToken :=
  fun _ _ _ => precedes_anyToken _

theorem leads_nothing (a : α) (conflicts : List TypeConflict) (follow : Token → Bool) :
    (nothing a conflicts).Leads follow follow :=
  fun _ _ h => h

theorem Begins.precedes {P : Phrase D α} {start before : Token → Bool} (h : P.Begins start)
    (hs : ∀ t, start t = true → before t = true) (d : D) (rest : List Lexed) :
    Precedes before (P.tokens d ++ rest) := by
  obtain ⟨t, ts, hts, hstart⟩ := h d
  simp [hts, hs _ hstart]

theorem Begins.leads {P : Phrase D α} {start before : Token → Bool} (h : P.Begins start)
    (follow : Token → Bool) (hs : ∀ t, start t = true → before t = true) : P.Leads follow before :=
  fun d rest _ => h.precedes hs d rest

/-- A derivation does not stand where no derivation begins. -/
theorem Begins.append_ne {P : Phrase D α} {start follow : Token → Bool} (h : P.Begins start)
    (hf : ∀ t, follow t = true → start t = false) (d : D) (ts : List Lexed) {us : List Lexed}
    (hus : Precedes follow us) : P.tokens d ++ ts ≠ us := by
  rintro rfl
  obtain ⟨t, more, hts, hstart⟩ := h.append d ts
  rw [hts, precedes_cons] at hus
  exact absurd hstart (Bool.eq_false_iff.mp (hf t.token hus))

theorem Leads.seq {P : Phrase D α} {Q : D → Phrase E β} {follow middle before : Token → Bool}
    (hP : P.Leads middle before) (hQ : ∀ d, (Q d).Leads follow middle) :
    (P.seq Q).Leads follow before := by
  rintro ⟨d, e⟩ rest h
  simpa [Phrase.seq] using hP d _ (hQ d e rest h)

theorem Begins.leads_option {P : Phrase D α} {start follow before : Token → Bool} (h : P.Begins start)
    (hs : ∀ t, start t = true → before t = true) (hf : ∀ t, follow t = true → before t = true) :
    P.option.Leads follow before := by
  rintro (_ | d) rest hrest
  · exact hrest.mono hf
  · exact h.precedes hs d rest

theorem Begins.leads_list {P : Phrase D α} {start follow before : Token → Bool} (h : P.Begins start)
    (hs : ∀ t, start t = true → before t = true) (hf : ∀ t, follow t = true → before t = true) :
    P.list.Leads follow before := by
  rintro (_ | ⟨d, ds⟩) rest hrest
  · exact hrest.mono hf
  · simpa [Phrase.list] using h.precedes hs d (ds.flatMap P.tokens ++ rest)

end Phrase

/-! ## Readers of phrases -/

/-- Where fewer than `n` tokens are left, `p` takes a derivation of `P` or nothing, it takes every derivation
that stands before the end or before a token of `follow`, and such a derivation is the only one. -/
structure Reads {D α : Type} (n : Nat) (p : Reader α) (P : Phrase D α) (follow : Token → Bool) :
    Prop where
  sound : ∀ {place : Place} {t : Taken α}, place.rest.length < n → (p place).taken = some t →
    ∃ d rest, place.rest = P.tokens d ++ rest ∧
      t = ⟨P.tree d, place.past (P.tokens d), P.conflicts d⟩
  complete : ∀ {place : Place} {d : D} {rest : List Lexed}, place.rest.length < n →
    place.rest = P.tokens d ++ rest → Precedes follow rest →
    (p place).taken = some ⟨P.tree d, place.past (P.tokens d), P.conflicts d⟩
  unique : ∀ {d d' : D} {rest rest' : List Lexed}, (P.tokens d ++ rest).length < n →
    P.tokens d ++ rest = P.tokens d' ++ rest' → Precedes follow rest → Precedes follow rest' → d = d'

/-- A reader of a phrase that begins with a token of `start`. -/
structure ReadsFrom {D α : Type} (n : Nat) (p : Reader α) (P : Phrase D α)
    (start follow : Token → Bool) : Prop where
  reads : Reads n p P follow
  begins : P.Begins start

namespace Reads

open Reader

variable {D E α β : Type} {n : Nat} {p : Reader α} {P : Phrase D α} {follow : Token → Bool}

theorem of_le {m : Nat} (h : Reads n p P follow) (hm : m ≤ n) : Reads m p P follow where
  sound hlen := h.sound (Nat.lt_of_lt_of_le hlen hm)
  complete hlen := h.complete (Nat.lt_of_lt_of_le hlen hm)
  unique hlen := h.unique (Nat.lt_of_lt_of_le hlen hm)

theorem of_eq {q : Reader α} (h : Reads n p P follow)
    (hq : ∀ place : Place, place.rest.length < n → q place = p place) : Reads n q P follow where
  sound hlen ht := h.sound hlen (hq _ hlen ▸ ht)
  complete hlen heq hrest := hq _ hlen ▸ h.complete hlen heq hrest
  unique := h.unique

theorem of_follow {follow' : Token → Bool} (h : Reads n p P follow)
    (hf : ∀ t, follow' t = true → follow t = true) : Reads n p P follow' where
  sound := h.sound
  complete hlen heq hrest := h.complete hlen heq (hrest.mono hf)
  unique hlen heq hrest hrest' := h.unique hlen heq (hrest.mono hf) (hrest'.mono hf)

/-- A reader fails where no derivation begins. -/
theorem fails {start follow' : Token → Bool} (h : Reads n p P follow) (hP : P.Begins start)
    (hf : ∀ t, follow' t = true → start t = false) {place : Place} (hlen : place.rest.length < n)
    (hrest : Precedes follow' place.rest) : (p place).taken = none := by
  refine Option.eq_none_iff_forall_ne_some.mpr fun t ht => ?_
  obtain ⟨d, rest, hd, -⟩ := h.sound hlen ht
  exact hP.append_ne hf d rest hrest hd.symm

/-- Other derivations for the same phrase. -/
theorem reshape {D' : Type} {P' : Phrase D' α} (h : Reads n p P follow) (g : D → D')
    (hg : Function.Surjective g) (htokens : ∀ d, P'.tokens (g d) = P.tokens d)
    (htree : ∀ d, P'.tree (g d) = P.tree d) (hconflicts : ∀ d, P'.conflicts (g d) = P.conflicts d) :
    Reads n p P' follow where
  sound hlen ht := by
    obtain ⟨d, rest, hd, rfl⟩ := h.sound hlen ht
    exact ⟨g d, rest, by rw [htokens, hd], by rw [htokens, htree, hconflicts]⟩
  complete {place d' rest} hlen heq hrest := by
    obtain ⟨d, rfl⟩ := hg d'
    rw [htokens] at heq
    rw [htokens, htree, hconflicts]
    exact h.complete hlen heq hrest
  unique {d₁ d₂ rest rest'} hlen heq hrest hrest' := by
    obtain ⟨d, rfl⟩ := hg d₁
    obtain ⟨e, rfl⟩ := hg d₂
    rw [htokens] at hlen
    rw [htokens, htokens] at heq
    rw [h.unique hlen heq hrest hrest']

/-! ### One reader after another -/

theorem taken_bind (p : Reader α) (f : α → Reader β) (place : Place) :
    ((p >>= f) place).taken = (p place).taken.bind fun t =>
      (f t.value t.after).taken.map fun u => { u with conflicts := t.conflicts ++ u.conflicts } := by
  show (Reader.bind p f place).taken = _
  cases h : (p place).taken <;> simp [Reader.bind, h]

/-- The second reader is run where fewer than `m` tokens are left, so it may know less if the first one
always takes a token. -/
theorem bind_of_le {m : Nat} {f : α → Reader β} {Q : D → Phrase E β} {follow' : Token → Bool}
    (hp : Reads n p P follow) (hf : ∀ d, Reads m (f (P.tree d)) (Q d) follow')
    (hm : ∀ d, n ≤ m + (P.tokens d).length) (hQ : ∀ d, (Q d).Leads follow' follow) :
    Reads n (p >>= f) (P.seq Q) follow' where
  sound {place t} hlen ht := by
    rw [taken_bind, Option.bind_eq_some_iff] at ht
    obtain ⟨t₁, ht₁, ht⟩ := ht
    obtain ⟨d, rest, hd, rfl⟩ := hp.sound hlen ht₁
    obtain ⟨t₂, ht₂, rfl⟩ := Option.map_eq_some_iff.mp ht
    have hrest : (place.past (P.tokens d)).rest = rest := Place.rest_past hd
    have hlen' : rest.length < m := by
      have := hm d
      simp only [hd, List.length_append] at hlen
      omega
    obtain ⟨e, rest', he, rfl⟩ := (hf d).sound (by rwa [hrest]) ht₂
    refine ⟨(d, e), rest', ?_, ?_⟩
    · rw [hd, ← hrest, he]
      simp [Phrase.seq]
    · simp [Phrase.seq]
  complete {place de rest} hlen heq hrest := by
    obtain ⟨d, e⟩ := de
    simp only [Phrase.seq, List.append_assoc] at heq
    have hafter : (place.past (P.tokens d)).rest = (Q d).tokens e ++ rest := Place.rest_past heq
    have hlen' : ((Q d).tokens e ++ rest).length < m := by
      have := hm d
      simp only [heq, List.length_append] at hlen ⊢
      omega
    -- What the second reader takes may follow the first derivation, so that one is taken whole.
    rw [taken_bind, hp.complete hlen heq (hQ d e rest hrest), Option.bind_some,
      (hf d).complete (by rwa [hafter]) hafter hrest]
    simp [Phrase.seq]
  unique {de de' rest rest'} hlen heq hrest hrest' := by
    obtain ⟨d, e⟩ := de
    obtain ⟨d', e'⟩ := de'
    simp only [Phrase.seq, List.append_assoc] at hlen heq
    obtain rfl := hp.unique hlen heq (hQ d e rest hrest) (hQ d' e' rest' hrest')
    have hlen' : ((Q d).tokens e ++ rest).length < m := by
      have := hm d
      simp only [List.length_append] at hlen ⊢
      omega
    rw [(hf d).unique hlen' (List.append_cancel_left heq) hrest hrest']

theorem bind {f : α → Reader β} {Q : D → Phrase E β} {follow' : Token → Bool}
    (hp : Reads n p P follow) (hf : ∀ d, Reads n (f (P.tree d)) (Q d) follow')
    (hQ : ∀ d, (Q d).Leads follow' follow) : Reads n (p >>= f) (P.seq Q) follow' :=
  hp.bind_of_le hf (fun _ => Nat.le_add_right _ _) hQ

/-- A reader that nothing continues may be followed by every other one. -/
theorem andThen {f : α → Reader β} {Q : D → Phrase E β} {follow' : Token → Bool}
    (hp : Reads n p P anyToken) (hf : ∀ d, Reads n (f (P.tree d)) (Q d) follow') :
    Reads n (p >>= f) (P.seq Q) follow' :=
  hp.bind hf fun _ => Phrase.leads_anyToken _ _

/-- Behind a reader that takes a token fewer tokens are left. -/
theorem bind_shorter {f : α → Reader β} {Q : D → Phrase E β} {start follow' : Token → Bool}
    (hp : Reads (n + 1) p P follow) (hP : P.Begins start)
    (hf : ∀ d, Reads n (f (P.tree d)) (Q d) follow') (hQ : ∀ d, (Q d).Leads follow' follow) :
    Reads (n + 1) (p >>= f) (P.seq Q) follow' :=
  hp.bind_of_le hf
    (fun d => Nat.add_le_add_left (List.length_pos_iff.mpr (hP.tokens_ne_nil d)) n) hQ

theorem nothing (a : α) : Reads n (Pure.pure a) (Phrase.nothing a []) follow where
  sound {place _} _ ht := ⟨(), place.rest, rfl, (Option.some.inj ht).symm⟩
  complete _ _ _ := rfl
  unique _ _ _ _ := rfl

theorem report (conflicts : List TypeConflict) :
    Reads n (Reader.report conflicts) (Phrase.nothing () conflicts) follow where
  sound {place _} _ ht := ⟨(), place.rest, rfl, (Option.some.inj ht).symm⟩
  complete _ _ _ := rfl
  unique _ _ _ _ := rfl

/-- A reader whose result is used to make another node. -/
theorem andReturn (h : Reads n p P follow) (f : α → β) :
    Reads n (p >>= fun a => Pure.pure (f a)) (P.map f) follow :=
  (h.bind (Q := fun d => Phrase.nothing (f (P.tree d)) []) (fun _ => nothing _)
    fun _ => Phrase.leads_nothing _ _ _).reshape
    Prod.fst (fun d => ⟨(d, ()), rfl⟩) (fun _ => (List.append_nil _).symm) (fun _ => rfl)
    (fun _ => (List.append_nil _).symm)

theorem map (h : Reads n p P follow) (f : α → β) : Reads n (f <$> p) (P.map f) follow :=
  h.andReturn f

/-! ### Single tokens -/

theorem taken_token_nil (e : Expected) (f : Token → Option α) {place : Place} (h : place.rest = []) :
    (Reader.token e f place).taken = none := by
  simp [Reader.token, h, Reader.fail]

theorem taken_token_cons (e : Expected) (f : Token → Option α) {place : Place} {t : Lexed}
    {rest : List Lexed} (h : place.rest = t :: rest) :
    (Reader.token e f place).taken = (f t.token).map fun a => ⟨a, place.past [t], []⟩ := by
  have hpast : place.past [t] = ⟨rest, place.index + 1, t.span.stop⟩ := by
    simp [Place.past, h]
  simp only [Reader.token, h]
  cases hf : f t.token with
  | none => rfl
  | some a => rw [hpast]; rfl

/-- A reader of one token, where the tokens that it accepts are those that derivations write. -/
theorem token (e : Expected) (f : Token → Option α) (word : D → Lexed) (tree : D → α)
    (hword : Function.Injective word) (hf : ∀ d, f (word d).token = some (tree d))
    (hsurj : ∀ t a, f t.token = some a → ∃ d, word d = t ∧ tree d = a) :
    Reads n (Reader.token e f) (Phrase.token word tree) anyToken where
  sound {place t} _ ht := by
    cases hrest : place.rest with
    | nil => simp [taken_token_nil e f hrest] at ht
    | cons u rest =>
      rw [taken_token_cons e f hrest] at ht
      obtain ⟨a, ha, rfl⟩ := Option.map_eq_some_iff.mp ht
      obtain ⟨d, rfl, rfl⟩ := hsurj u a ha
      exact ⟨d, rest, rfl, rfl⟩
  complete {place d rest} _ heq _ := by
    rw [taken_token_cons e f heq, hf]
    rfl
  unique _ heq _ _ := hword (List.cons.inj heq).1

theorem oneOf (f : Token → Option α) (word : D → Lexed) (tree : D → α)
    (hword : Function.Injective word) (hf : ∀ d, f (word d).token = some (tree d))
    (hsurj : ∀ t a, f t.token = some a → ∃ d, word d = t ∧ tree d = a) :
    Reads n (Reader.oneOf f) (Phrase.token word tree) anyToken :=
  token _ f word tree hword hf hsurj

theorem just (t : Token) :
    Reads n (Reader.just t) (Phrase.token (fun pos => ⟨t, pos⟩) fun _ => ()) anyToken := by
  refine token _ _ _ _ (fun _ _ h => (Lexed.mk.inj h).2) (fun _ => if_pos rfl) ?_
  intro u _ hu
  split at hu
  · rename_i h
    exact ⟨u.span, by rw [← h], rfl⟩
  · exact absurd hu (Option.some_ne_none _).symm

theorem keyword (k : Keyword) : Reads n (Reader.keyword k)
    (Phrase.token (fun pos => ⟨.keyword k, pos⟩) fun _ => ()) anyToken :=
  just (.keyword k)

theorem mark (m : Mark) : Reads n (Reader.mark m)
    (Phrase.token (fun pos => ⟨.mark m, pos⟩) fun _ => ()) anyToken :=
  just (.mark m)

/-! ### Labels and spans -/

theorem labelled (h : Reads n p P follow) (c : Construct) : Reads n (labelled c p) P follow :=
  ⟨h.sound, h.complete, h.unique⟩

theorem taken_withSpan (p : Reader (Span → α)) (place : Place) :
    (withSpan p place).taken = (p place).taken.map fun t =>
      { t with value := t.value ({ (place.rest.head?.map Lexed.span).getD default with
          stop := t.after.stop }) } :=
  rfl

/-- The span that a reader gives a node is the span of the tokens it took. -/
theorem span_taken {place : Place} {ts rest : List Lexed} (hts : ts ≠ [])
    (h : place.rest = ts ++ rest) :
    { (place.rest.head?.map Lexed.span).getD default with stop := (place.past ts).stop }
      = spanOf ts := by
  cases ts with
  | nil => exact absurd rfl hts
  | cons t ts => rw [Place.stop_past hts, h]; rfl

theorem withSpan {p : Reader (Span → α)} {P : Phrase D (Span → α)} {start : Token → Bool}
    (h : Reads n p P follow) (hP : P.Begins start) : Reads n (withSpan p) P.spanned follow where
  sound {place t} hlen ht := by
    rw [taken_withSpan] at ht
    obtain ⟨u, hu, rfl⟩ := Option.map_eq_some_iff.mp ht
    obtain ⟨d, rest, hd, rfl⟩ := h.sound hlen hu
    refine ⟨d, rest, hd, ?_⟩
    simp only [span_taken (hP.tokens_ne_nil d) hd]
    rfl
  complete {place d rest} hlen heq hrest := by
    rw [taken_withSpan, h.complete hlen heq hrest]
    simp only [Option.map_some, span_taken (hP.tokens_ne_nil d) heq]
    rfl
  unique := h.unique

/-! ### Alternatives -/

theorem taken_orElse (p q : Reader α) (place : Place) :
    (p.orElse q place).taken = (p place).taken.or (q place).taken := by
  cases h : (p place).taken <;> simp [Reader.orElse, h]

/-- The first token tells two alternatives apart. -/
theorem orElse {q : Reader α} {Q : Phrase E α} {start start' : Token → Bool}
    (hp : Reads n p P follow) (hq : Reads n q Q follow) (hP : P.Begins start) (hQ : Q.Begins start')
    (hapart : Apart start start') :
    Reads n (p.orElse q) (P.sum Q) follow where
  sound {place t} hlen ht := by
    rw [taken_orElse, Option.or_eq_some_iff] at ht
    rcases ht with ht | ⟨-, ht⟩
    · obtain ⟨d, rest, hd, rfl⟩ := hp.sound hlen ht
      exact ⟨.inl d, rest, hd, rfl⟩
    · obtain ⟨e, rest, he, rfl⟩ := hq.sound hlen ht
      exact ⟨.inr e, rest, he, rfl⟩
  complete {place de rest} hlen heq hrest := by
    rw [taken_orElse]
    cases de with
    | inl d => rw [hp.complete hlen heq hrest]; rfl
    | inr e =>
      -- The first reader fails, since none of its derivations begins here.
      have hfirst : Precedes start' place.rest := heq ▸ hQ.precedes (fun _ h => h) e rest
      rw [hp.fails hP hapart hlen hfirst, hq.complete hlen heq hrest]
      rfl
  unique {de de' rest rest'} hlen heq hrest hrest' := by
    have hclash : ∀ d e r r', P.tokens d ++ r ≠ Q.tokens e ++ r' := fun d e r r' =>
      hP.append_ne hapart d r (hQ.precedes (fun _ h => h) e r')
    rcases de with d | e <;> rcases de' with d' | e'
    · rw [hp.unique hlen heq hrest hrest']
    · exact absurd heq (hclash d e' rest rest')
    · exact absurd heq.symm (hclash d' e rest' rest)
    · rw [hq.unique hlen heq hrest hrest']

/-! ### Repetition -/

theorem taken_optional (p : Reader α) (place : Place) :
    (Reader.optional p place).taken = ((p place).taken.map fun t =>
      { t with value := some t.value }).or (some ⟨none, place, []⟩) := by
  cases h : (p place).taken <;> simp [Reader.optional, h]

/-- What follows the option neither begins nor continues it. -/
theorem optional {start follow' : Token → Bool} (h : Reads n p P follow) (hP : P.Begins start)
    (hfollow : ∀ t, follow' t = true → follow t = true ∧ start t = false) :
    Reads n (Reader.optional p) P.option follow' where
  sound {place t} hlen ht := by
    rw [taken_optional, Option.or_eq_some_iff] at ht
    rcases ht with ht | ⟨-, ht⟩
    · obtain ⟨u, hu, rfl⟩ := Option.map_eq_some_iff.mp ht
      obtain ⟨d, rest, hd, rfl⟩ := h.sound hlen hu
      exact ⟨some d, rest, hd, rfl⟩
    · exact ⟨none, place.rest, rfl, (Option.some.inj ht).symm⟩
  complete {place d rest} hlen heq hrest := by
    rw [taken_optional]
    cases d with
    | none =>
      obtain rfl : place.rest = rest := heq
      rw [h.fails hP (fun t ht => (hfollow t ht).2) hlen hrest]
      rfl
    | some d =>
      rw [h.complete hlen heq (hrest.mono fun t ht => (hfollow t ht).1)]
      rfl
  unique {d d' rest rest'} hlen heq hrest hrest' := by
    have hclash : ∀ d r r', Precedes follow' r' → P.tokens d ++ r ≠ r' := fun d r _ =>
      hP.append_ne (fun t ht => (hfollow t ht).2) d r
    rcases d with _ | d <;> rcases d' with _ | d'
    · rfl
    · exact absurd heq.symm (hclash d' rest' rest hrest)
    · exact absurd heq (hclash d rest rest' hrest')
    · rw [h.unique hlen heq (hrest.mono fun t ht => (hfollow t ht).1)
        (hrest'.mono fun t ht => (hfollow t ht).1)]

theorem taken_many_none {p : Reader α} {place : Place} (h : (p place).taken = none) :
    (Reader.many p place).taken = some ⟨[], place, []⟩ := by
  rw [Reader.many.eq_def]
  simp [h]

theorem taken_many_some {p : Reader α} {place : Place} {t : Taken α} (h : (p place).taken = some t)
    (hlen : t.after.rest.length < place.rest.length) :
    (Reader.many p place).taken = (Reader.many p t.after).taken.map fun u =>
      ⟨t.value :: u.value, u.after, t.conflicts ++ u.conflicts⟩ := by
  rw [Reader.many.eq_def]
  simp [h, hlen]

theorem length_lt_of_begins {start : Token → Bool} (hP : P.Begins start) {ts rest : List Lexed} {d : D}
    (h : ts = P.tokens d ++ rest) : rest.length < ts.length := by
  have := List.length_pos_iff.mpr (hP.tokens_ne_nil d)
  simp only [h, List.length_append]
  omega

/-- A node is followed by the next one or by what follows them all. -/
theorem precedes_list {start follow' : Token → Bool} (hP : P.Begins start)
    (hstart : ∀ t, start t = true → follow t = true)
    (hfollow : ∀ t, follow' t = true → follow t = true ∧ start t = false) (ds : List D)
    {rest : List Lexed} (hrest : Precedes follow' rest) :
    Precedes follow (P.list.tokens ds ++ rest) :=
  hP.leads_list hstart (fun t ht => (hfollow t ht).1) ds rest hrest

theorem sound_many {start : Token → Bool} (h : Reads n p P follow) (hP : P.Begins start) (k : Nat)
    {place : Place} {t : Taken (List α)} (hk : place.rest.length = k) (hlen : k < n)
    (ht : (Reader.many p place).taken = some t) :
    ∃ ds rest, place.rest = P.list.tokens ds ++ rest ∧
      t = ⟨P.list.tree ds, place.past (P.list.tokens ds), P.list.conflicts ds⟩ := by
  -- Every node takes a token, so the other nodes are read where fewer are left.
  induction k using Nat.strongRecOn generalizing place t with
  | _ k ih =>
    cases hp : (p place).taken with
    | none =>
      rw [taken_many_none hp] at ht
      exact ⟨[], place.rest, rfl, (Option.some.inj ht).symm⟩
    | some u =>
      obtain ⟨d, rest, hd, rfl⟩ := h.sound (hk ▸ hlen) hp
      have hafter : (place.past (P.tokens d)).rest = rest := Place.rest_past hd
      have hshort : rest.length < place.rest.length := length_lt_of_begins hP hd
      rw [taken_many_some hp (by simpa [hafter] using hshort)] at ht
      obtain ⟨v, hv, rfl⟩ := Option.map_eq_some_iff.mp ht
      obtain ⟨ds, rest', hds, rfl⟩ :=
        ih rest.length (hk ▸ hshort) (by rw [hafter]) (by omega) hv
      refine ⟨d :: ds, rest', ?_, ?_⟩
      · rw [hd, ← hafter, hds]
        simp [Phrase.list]
      · simp [Phrase.list]

/-- Each node begins with a token that may follow the one before it. -/
theorem many {start follow' : Token → Bool} (h : Reads n p P follow) (hP : P.Begins start)
    (hstart : ∀ t, start t = true → follow t = true)
    (hfollow : ∀ t, follow' t = true → follow t = true ∧ start t = false) :
    Reads n (Reader.many p) P.list follow' where
  sound hlen ht := h.sound_many hP _ rfl hlen ht
  complete {place ds rest} hlen heq hrest := by
    induction ds generalizing place with
    | nil =>
      obtain rfl : place.rest = rest := heq
      rw [taken_many_none (h.fails hP (fun t ht => (hfollow t ht).2) hlen hrest)]
      rfl
    | cons d ds ih =>
      have heq' : place.rest = P.tokens d ++ (P.list.tokens ds ++ rest) := by
        rw [heq]
        simp [Phrase.list]
      have hafter : (place.past (P.tokens d)).rest = P.list.tokens ds ++ rest :=
        Place.rest_past heq'
      have hshort := length_lt_of_begins hP heq'
      have htaken := h.complete hlen heq' (precedes_list hP hstart hfollow ds hrest)
      rw [taken_many_some htaken (by simpa [hafter] using hshort),
        ih (by rw [hafter]; omega) hafter]
      simp [Phrase.list]
  unique {ds ds' rest rest'} hlen heq hrest hrest' := by
    -- One list cannot end where the other one goes on.
    have hclash : ∀ d r r', Precedes follow' r' → P.tokens d ++ r ≠ r' := fun d r _ =>
      hP.append_ne (fun t ht => (hfollow t ht).2) d r
    induction ds generalizing ds' with
    | nil =>
      cases ds' with
      | nil => rfl
      | cons d' ds' =>
        refine absurd heq.symm ?_
        simpa [Phrase.list] using hclash d' (ds'.flatMap P.tokens ++ rest') rest hrest
    | cons d ds ih =>
      cases ds' with
      | nil =>
        refine absurd heq ?_
        simpa [Phrase.list] using hclash d (ds.flatMap P.tokens ++ rest) rest' hrest'
      | cons d' ds' =>
        simp only [Phrase.list, List.flatMap_cons, List.append_assoc] at hlen heq
        obtain rfl := h.unique hlen heq (precedes_list hP hstart hfollow ds hrest)
          (precedes_list hP hstart hfollow ds' hrest')
        have hlen' : (P.list.tokens ds ++ rest).length < n := by
          simp only [Phrase.list, List.length_append] at hlen ⊢
          omega
        rw [ih hlen' (List.append_cancel_left heq)]

/-- One or more nodes. -/
theorem many1 {start follow' : Token → Bool} (h : Reads n p P follow) (hP : P.Begins start)
    (hstart : ∀ t, start t = true → follow t = true)
    (hfollow : ∀ t, follow' t = true → follow t = true ∧ start t = false) :
    Reads n (Reader.many1 p) (P.seq fun d => P.list.map (P.tree d :: ·)) follow' :=
  h.bind (fun _ => (h.many hP hstart hfollow).andReturn _)
    fun _ => hP.leads_list hstart fun t ht => (hfollow t ht).1

/-! ### Readers that contain themselves -/

/-- If the body reads its phrase as soon as the inner reader does where fewer tokens are left, then the whole
reader reads it; this is induction on the number of tokens left. -/
theorem fix_of_le {body : Reader α → Reader α} {m : Nat}
    (h : ∀ k < m, ∀ inner, Reads k inner P follow → Reads (k + 1) (body inner) P follow)
    (hm : n ≤ m) :
    Reads n (fix body) P follow := by
  induction n with
  | zero =>
    exact ⟨fun hlen => absurd hlen (Nat.not_lt_zero _), fun hlen => absurd hlen (Nat.not_lt_zero _),
      fun hlen => absurd hlen (Nat.not_lt_zero _)⟩
  | succ n ih =>
    have ih : Reads n (fix body) P follow := ih (Nat.le_of_succ_le hm)
    -- Unfolded once, the reader is its body around a reader that knows places with fewer tokens only.
    have hunfold : ∀ place : Place, place.rest.length < n + 1 → ∃ q : Reader α,
        fix body place = q place ∧ Reads (place.rest.length + 1) q P follow := by
      intro place hlen
      refine ⟨_, Reader.fix.eq_def body place, h place.rest.length (by omega) _ ?_⟩
      exact (ih.of_le (Nat.le_of_lt_succ hlen)).of_eq fun q hq => if_pos hq
    exact {
      sound := fun {place t} hlen ht => by
        obtain ⟨q, hq, hreads⟩ := hunfold place hlen
        exact hreads.sound (Nat.lt_succ_self _) (hq ▸ ht)
      complete := fun {place d rest} hlen heq hrest => by
        obtain ⟨q, hq, hreads⟩ := hunfold place hlen
        exact hq ▸ hreads.complete (Nat.lt_succ_self _) heq hrest
      unique := (h n hm _ ih).unique }

/-- What the body does for every number of tokens, the whole reader does. -/
theorem fix {body : Reader α → Reader α}
    (h : ∀ k inner, Reads k inner P follow → Reads (k + 1) (body inner) P follow) :
    Reads n (fix body) P follow :=
  fix_of_le (fun k _ => h k) (Nat.le_refl n)

end Reads

namespace ReadsFrom

variable {D E α : Type} {n : Nat} {p q : Reader α} {P : Phrase D α} {Q : Phrase E α}
  {start start' follow : Token → Bool}

/-- Alternatives are put together one by one. -/
theorem first (hapart : Apart start start') (hp : ReadsFrom n p P start follow)
    (hq : ReadsFrom n q Q start' follow) :
    ReadsFrom n (p.orElse q) (P.sum Q) (fun t => start t || start' t) follow :=
  ⟨hp.reads.orElse hq.reads hp.begins hq.begins hapart, hp.begins.sum hq.begins⟩

theorem reshape {D' : Type} {P' : Phrase D' α} (h : ReadsFrom n p P start follow) (g : D → D')
    (hg : Function.Surjective g) (htokens : ∀ d, P'.tokens (g d) = P.tokens d)
    (htree : ∀ d, P'.tree (g d) = P.tree d) (hconflicts : ∀ d, P'.conflicts (g d) = P.conflicts d) :
    ReadsFrom n p P' start follow := by
  refine ⟨h.reads.reshape g hg htokens htree hconflicts, fun d' => ?_⟩
  obtain ⟨d, rfl⟩ := hg d'
  rw [htokens]
  exact h.begins d

end ReadsFrom

end KconfigLang
