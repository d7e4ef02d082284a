import KconfigLang.Proofs.Grammar.Acceptance

/-!
# Lookahead

What a reader takes depends on the tokens up to the furthest failure of an attempt: neither on tokens behind it
nor on where in a text the tokens are.

- `Furthest.reach`: how many tokens attempts looked at.
- `Fork`: two token lists that begin with the same tokens.
- `Local`: two readers that take the same in such lists if the first one looks at shared tokens only; one lemma
  for each way to build a reader.
- `Grammar.file_local`: the reader of files is one of them.
- `Local.stuck`: a list is not read to its end if it begins like one in which attempts failed earlier.
-/

namespace KconfigLang

/-! ## Two token lists -/

/-- The number of tokens that attempts looked at; the end of the list counts as a token. -/
def Furthest.reach (mark : Option Furthest) : Nat :=
  mark.elim 0 (·.index + 1)

@[simp] theorem Furthest.reach_none : reach none = 0 := rfl

@[simp] theorem Furthest.reach_some (m : Furthest) : reach (some m) = m.index + 1 := rfl

@[simp] theorem Furthest.reach_merge (x y : Option Furthest) : reach (merge x y) = max (reach x) (reach y) := by
  rcases x with _ | m <;> rcases y with _ | n
  · rfl
  · simp [merge]
  · simp [merge]
  · unfold merge
    simp only
    split
    · simp only [reach_some]
      omega
    · split <;> simp only [reach_some] <;> omega

/-- Two token lists that begin with the same tokens, up to their spans. -/
structure Fork where
  /-- The number of tokens that they share. -/
  bound : Nat
  /-- What the first list holds behind them. -/
  left : List Lexed
  /-- What the second list holds behind them. -/
  right : List Lexed

namespace Fork

variable (F : Fork) {α : Type}

/-- The same place in both lists, not behind the tokens that they share. -/
def SamePlace (place place' : Place) : Prop :=
  ∃ shared shared', place.rest = shared ++ F.left ∧ place'.rest = shared' ++ F.right ∧
    shared'.map Lexed.token = shared.map Lexed.token ∧ place.index + shared.length = F.bound

/-- In both lists a node is taken up to the same place, or none is. -/
def SameReading (r r' : Reading α) : Prop :=
  Option.Rel (fun t u => F.SamePlace t.after u.after) r.taken r'.taken

/-- An outcome for which only shared tokens were looked at. -/
structure Within (r : Reading α) : Prop where
  reach : Furthest.reach r.furthest ≤ F.bound
  after : ∀ t ∈ r.taken, t.after.index ≤ F.bound

variable {F}

/-- Fewer tokens are left in one list if fewer are left in the other. -/
theorem SamePlace.shorter {place place' inner inner' : Place} (h : F.SamePlace place place')
    (hinner : F.SamePlace inner inner') :
    inner.rest.length < place.rest.length ↔ inner'.rest.length < place'.rest.length := by
  obtain ⟨shared, shared', hrest, hrest', hshared, -⟩ := h
  obtain ⟨inner, inner', hinner, hinner', hshared', -⟩ := hinner
  have hlength := congrArg List.length hshared
  have hlength' := congrArg List.length hshared'
  simp only [List.length_map] at hlength hlength'
  simp only [hrest, hrest', hinner, hinner', List.length_append]
  omega

theorem SameReading.cases {r r' : Reading α} (h : F.SameReading r r') :
    r.taken = none ∧ r'.taken = none ∨
      ∃ t u, r.taken = some t ∧ r'.taken = some u ∧ F.SamePlace t.after u.after := by
  unfold SameReading at h
  generalize r.taken = x, r'.taken = y at h ⊢
  cases h with
  | none => exact .inl ⟨rfl, rfl⟩
  | some htu => exact .inr ⟨_, _, rfl, rfl, htu⟩

theorem SameReading.none_of_none {r r' : Reading α} (h : F.SameReading r r') (hr : r.taken = none) :
    r'.taken = none := by
  rcases h.cases with ⟨-, hr'⟩ | ⟨t, u, ht, -⟩
  · exact hr'
  · exact absurd (ht.symm.trans hr) (Option.some_ne_none _)

theorem SameReading.some_of_some {r r' : Reading α} {t : Taken α} (h : F.SameReading r r')
    (hr : r.taken = some t) : ∃ u, r'.taken = some u ∧ F.SamePlace t.after u.after := by
  rcases h.cases with ⟨ht, -⟩ | ⟨t', u, ht, hu, hplace⟩
  · exact absurd (hr.symm.trans ht) (Option.some_ne_none _)
  · obtain rfl := Option.some.inj (ht.symm.trans hr)
    exact ⟨u, hu, hplace⟩

end Fork

/-! ## Readers -/

/-- Where fewer than `n` tokens are left, `p` goes forward or fails at or behind its place; and if it looks at
shared tokens only, then `q` takes the same in the other list. -/
structure Local {α : Type} (F : Fork) (n : Nat) (p q : Reader α) : Prop where
  forward : ∀ {place : Place} {t : Taken α}, place.rest.length < n → (p place).taken = some t →
    place.index ≤ t.after.index ∧
      t.after.index + t.after.rest.length = place.index + place.rest.length
  fails : ∀ {place : Place}, place.rest.length < n → (p place).taken = none →
    place.index < Furthest.reach (p place).furthest
  same : ∀ {place place' : Place}, F.SamePlace place place' → place.rest.length < n →
    F.Within (p place) → F.SameReading (p place) (q place')

/-- A reader of a token fails at its place or takes the next token. -/
theorem token_outcome {α : Type} (e : Expected) (f : Token → Option α) (place : Place) :
    Reader.token e f place = ⟨none, some ⟨place.index, [e]⟩⟩ ∨ ∃ t rest a, place.rest = t :: rest ∧
      f t.token = some a ∧
        Reader.token e f place = ⟨some ⟨a, ⟨rest, place.index + 1, t.span.stop⟩, []⟩, none⟩ := by
  obtain ⟨_ | ⟨t, rest⟩, index, stop⟩ := place
  · exact .inl rfl
  · cases hf : f t.token with
    | none => exact .inl (by simp [Reader.token, Reader.fail, hf])
    | some a => exact .inr ⟨t, rest, a, rfl, hf, by simp [Reader.token, hf]⟩

namespace Local

open Reader

variable {α β : Type} {F : Fork} {n m : Nat} {p q p' q' : Reader α}

theorem of_le (h : Local F n p q) (hm : m ≤ n) : Local F m p q where
  forward hlen := h.forward (Nat.lt_of_lt_of_le hlen hm)
  fails hlen := h.fails (Nat.lt_of_lt_of_le hlen hm)
  same hsame hlen := h.same hsame (Nat.lt_of_lt_of_le hlen hm)

theorem of_eq (h : Local F n p q) (hp : ∀ place : Place, place.rest.length < n → p' place = p place)
    (hq : ∀ place place', F.SamePlace place place' → place.rest.length < n → q' place' = q place') :
    Local F n p' q' where
  forward hlen ht := h.forward hlen (hp _ hlen ▸ ht)
  fails hlen ht := by
    rw [hp _ hlen] at ht ⊢
    exact h.fails hlen ht
  same hsame hlen hwithin := by
    rw [hp _ hlen] at hwithin ⊢
    rw [hq _ _ hsame hlen]
    exact h.same hsame hlen hwithin

theorem nothing (a b : α) : Local F n (Pure.pure a) (Pure.pure b) where
  forward _ ht := by
    obtain rfl := Option.some.inj ht
    exact ⟨Nat.le_refl _, rfl⟩
  fails _ ht := absurd ht (Option.some_ne_none _)
  same hsame _ _ := .some hsame

theorem report (conflicts conflicts' : List TypeConflict) :
    Local F n (Reader.report conflicts) (Reader.report conflicts') where
  forward _ ht := by
    obtain rfl := Option.some.inj ht
    exact ⟨Nat.le_refl _, rfl⟩
  fails _ ht := absurd ht (Option.some_ne_none _)
  same hsame _ _ := .some hsame

theorem token (e : Expected) (f : Token → Option α) :
    Local F n (Reader.token e f) (Reader.token e f) where
  forward {place t} _ ht := by
    rcases token_outcome e f place with h | ⟨u, rest, a, hrest, -, h⟩
    · rw [h] at ht
      exact absurd ht (Option.some_ne_none _).symm
    · rw [h] at ht
      obtain rfl := Option.some.inj ht
      simp only [hrest, List.length_cons]
      omega
  fails {place} _ ht := by
    rcases token_outcome e f place with h | ⟨t, rest, a, -, -, h⟩
    · rw [h]
      exact Nat.lt_succ_self _
    · rw [h] at ht
      exact absurd ht (Option.some_ne_none _)
  same {place place'} hsame _ hwithin := by
    obtain ⟨shared, shared', hrest, hrest', hshared, hlength⟩ := hsame
    cases shared with
    | nil =>
      -- Where no token is shared any more, the reader looks at the next one.
      have hplace : place.index = F.bound := hlength
      obtain ⟨hreach, hafter⟩ := hwithin
      rcases token_outcome e f place with h | ⟨t, rest, a, -, -, h⟩
      · rw [h] at hreach
        have hreach : place.index + 1 ≤ F.bound := hreach
        omega
      · rw [h] at hafter
        have hstop : place.index + 1 ≤ F.bound := hafter _ rfl
        omega
    | cons t shared =>
      obtain ⟨t', shared', rfl⟩ : ∃ t' rest, shared' = t' :: rest := by
        cases shared' with
        | nil => exact absurd hshared.symm (List.cons_ne_nil _ _)
        | cons t' rest => exact ⟨t', rest, rfl⟩
      obtain ⟨htoken, hshared⟩ := List.cons.inj hshared
      simp only [Reader.token, hrest, hrest', List.cons_append]
      rw [htoken]
      cases f t.token with
      | none => exact .none
      | some a =>
        refine .some ⟨shared, shared', rfl, rfl, hshared, ?_⟩
        show place.index + 1 + shared.length = F.bound
        rw [← hlength, List.length_cons]
        omega

theorem just (t : Token) : Local F n (Reader.just t) (Reader.just t) :=
  token (.token t) fun u => if u = t then some () else none

theorem keyword (k : Keyword) : Local F n (Reader.keyword k) (Reader.keyword k) :=
  just (.keyword k)

theorem mark (m : Mark) : Local F n (Reader.mark m) (Reader.mark m) :=
  just (.mark m)

/-- If only shared tokens are looked at by two readers one behind the other, so they are by each of them: the
first one stops at a shared token, since the second one goes on from there or fails. -/
theorem within_of_bind {f g : α → Reader β} {place : Place} {t : Taken α}
    (hf : Local F m (f t.value) (g t.value)) (hlen : t.after.rest.length < m)
    (ht : (p place).taken = some t) (hwithin : F.Within ((p >>= f) place)) :
    F.Within (p place) ∧ F.Within (f t.value t.after) := by
  obtain ⟨hreach, hafter⟩ := hwithin
  replace hreach : Furthest.reach (Reader.bind p f place).furthest ≤ F.bound := hreach
  rw [Reads.taken_bind, ht, Option.bind_some] at hafter
  simp only [Reader.bind, ht, Furthest.reach_merge] at hreach
  have hmore : ∀ u ∈ (f t.value t.after).taken, u.after.index ≤ F.bound := fun u hu =>
    hafter ⟨u.value, u.after, t.conflicts ++ u.conflicts⟩ (Option.mem_map_of_mem _ hu)
  have hstop : t.after.index ≤ F.bound := by
    cases hu : (f t.value t.after).taken with
    | none => exact Nat.le_of_lt (Nat.lt_of_lt_of_le (hf.fails hlen hu) (by omega))
    | some u => exact Nat.le_trans (hf.forward hlen hu).1 (hmore u hu)
  refine ⟨⟨by omega, fun t' ht' => ?_⟩, by omega, hmore⟩
  obtain rfl := Option.some.inj (ht.symm.trans ht')
  exact hstop

/-- The second reader is run where fewer than `m` tokens are left. -/
theorem bind_of_le {f g : α → Reader β} (h : Local F n p q) (hf : ∀ a b, Local F m (f a) (g b))
    (hm : ∀ place t, place.rest.length < n → (p place).taken = some t → t.after.rest.length < m) :
    Local F n (p >>= f) (q >>= g) where
  forward {place u} hlen hu := by
    rw [Reads.taken_bind, Option.bind_eq_some_iff] at hu
    obtain ⟨t, ht, hu⟩ := hu
    obtain ⟨v, hv, rfl⟩ := Option.map_eq_some_iff.mp hu
    have hfirst := h.forward hlen ht
    have hsecond := (hf t.value t.value).forward (hm _ _ hlen ht) hv
    exact ⟨Nat.le_trans hfirst.1 hsecond.1, hsecond.2.trans hfirst.2⟩
  fails {place} hlen hu := by
    show place.index < Furthest.reach (Reader.bind p f place).furthest
    rw [Reads.taken_bind] at hu
    cases ht : (p place).taken with
    | none =>
      simp only [Reader.bind, ht]
      exact h.fails hlen ht
    | some t =>
      rw [ht, Option.bind_some, Option.map_eq_none_iff] at hu
      have hfirst := h.forward hlen ht
      have hsecond := (hf t.value t.value).fails (hm _ _ hlen ht) hu
      simp only [Reader.bind, ht, Furthest.reach_merge]
      omega
  same {place place'} hsame hlen hwithin := by
    unfold Fork.SameReading
    rw [Reads.taken_bind, Reads.taken_bind]
    cases ht : (p place).taken with
    | none =>
      have hreach : Furthest.reach (Reader.bind p f place).furthest ≤ F.bound := hwithin.reach
      simp only [Reader.bind, ht] at hreach
      rw [(h.same hsame hlen ⟨hreach, by simp [ht]⟩).none_of_none ht]
      exact .none
    | some t =>
      obtain ⟨hfirst, hsecond⟩ := within_of_bind (hf t.value t.value) (hm _ _ hlen ht) ht hwithin
      obtain ⟨t', ht', hplace⟩ := (h.same hsame hlen hfirst).some_of_some ht
      rw [ht', Option.bind_some, Option.bind_some]
      rcases ((hf t.value t'.value).same hplace (hm _ _ hlen ht) hsecond).cases with
        ⟨hu, hu'⟩ | ⟨u, u', hu, hu', hplace'⟩
      · rw [hu, hu']
        exact .none
      · rw [hu, hu']
        exact .some hplace'

theorem bind {f g : α → Reader β} (h : Local F n p q) (hf : ∀ a b, Local F n (f a) (g b)) :
    Local F n (p >>= f) (q >>= g) :=
  h.bind_of_le hf fun _ _ hlen ht => by
    have := h.forward hlen ht
    omega

/-- Behind a token fewer tokens are left. -/
theorem token_bind (e : Expected) (f : Token → Option α) {f' g' : α → Reader β}
    (hf : ∀ a b, Local F n (f' a) (g' b)) :
    Local F (n + 1) (Reader.token e f >>= f') (Reader.token e f >>= g') := by
  refine (token e f).bind_of_le hf fun place t hlen ht => ?_
  rcases token_outcome e f place with h | ⟨u, rest, a, hrest, -, h⟩
  · rw [h] at ht
    exact absurd ht (Option.some_ne_none _).symm
  · rw [h] at ht
    obtain rfl := Option.some.inj ht
    rw [hrest, List.length_cons] at hlen
    exact Nat.lt_of_succ_lt_succ hlen

theorem keyword_bind (k : Keyword) {f g : Unit → Reader β} (hf : ∀ a b, Local F n (f a) (g b)) :
    Local F (n + 1) (Reader.keyword k >>= f) (Reader.keyword k >>= g) :=
  token_bind (.token (.keyword k)) (fun u => if u = .keyword k then some () else none) hf

theorem mark_bind (m : Mark) {f g : Unit → Reader β} (hf : ∀ a b, Local F n (f a) (g b)) :
    Local F (n + 1) (Reader.mark m >>= f) (Reader.mark m >>= g) :=
  token_bind (.token (.mark m)) (fun u => if u = .mark m then some () else none) hf

theorem andReturn (h : Local F n p q) (f g : α → β) :
    Local F n (do return f (← p)) (do return g (← q)) :=
  h.bind fun a b => nothing (f a) (g b)

theorem map (h : Local F n p q) (f : α → β) : Local F n (f <$> p) (f <$> q) :=
  h.andReturn f f

theorem withSpan {p q : Reader (Span → α)} (h : Local F n p q) :
    Local F n (Reader.withSpan p) (Reader.withSpan q) where
  forward hlen ht := by
    rw [Reads.taken_withSpan] at ht
    obtain ⟨u, hu, rfl⟩ := Option.map_eq_some_iff.mp ht
    exact h.forward hlen hu
  fails hlen ht := by
    rw [Reads.taken_withSpan, Option.map_eq_none_iff] at ht
    exact h.fails hlen ht
  same {place place'} hsame hlen hwithin := by
    obtain ⟨hreach, hafter⟩ := hwithin
    rw [Reads.taken_withSpan] at hafter
    have hinner := h.same hsame hlen ⟨hreach, fun t ht => hafter _ (Option.mem_map_of_mem _ ht)⟩
    unfold Fork.SameReading
    rw [Reads.taken_withSpan, Reads.taken_withSpan]
    rcases hinner.cases with ⟨ht, hu⟩ | ⟨t, u, ht, hu, hplace⟩
    · rw [ht, hu]
      exact .none
    · rw [ht, hu]
      exact .some hplace

theorem labelled (h : Local F n p q) (c : Construct) :
    Local F n (Reader.labelled c p) (Reader.labelled c q) := by
  have hreach (place : Place) : Furthest.reach (Reader.labelled c p place).furthest =
      Furthest.reach (p place).furthest := by
    simp only [Reader.labelled]
    cases (p place).furthest with
    | none => rfl
    | some m =>
      simp only [Option.map_some, Furthest.reach_some]
      split <;> rfl
  refine ⟨h.forward, fun hlen ht => ?_, fun {place place'} hsame hlen hwithin => ?_⟩
  · rw [hreach]
    exact h.fails hlen ht
  · exact h.same hsame hlen ⟨hreach place ▸ hwithin.reach, hwithin.after⟩

/-! ### Alternatives and repetition -/

theorem orElse (h : Local F n p q) (h' : Local F n p' q') :
    Local F n (p.orElse p') (q.orElse q') where
  forward hlen ht := by
    rw [Reads.taken_orElse, Option.or_eq_some_iff] at ht
    rcases ht with ht | ⟨-, ht⟩
    · exact h.forward hlen ht
    · exact h'.forward hlen ht
  fails {place} hlen ht := by
    rw [Reads.taken_orElse, Option.or_eq_none_iff] at ht
    have hsecond := h'.fails hlen ht.2
    simp only [Reader.orElse, ht.1, Furthest.reach_merge]
    omega
  same {place place'} hsame hlen hwithin := by
    obtain ⟨hreach, hafter⟩ := hwithin
    simp only [Reader.orElse] at hreach hafter
    unfold Fork.SameReading
    rw [Reads.taken_orElse, Reads.taken_orElse]
    cases ht : (p place).taken with
    | none =>
      simp only [ht, Furthest.reach_merge] at hreach hafter
      have hfirst := h.same hsame hlen ⟨by omega, by simp [ht]⟩
      rw [hfirst.none_of_none ht]
      exact h'.same hsame hlen ⟨by omega, hafter⟩
    | some t =>
      simp only [ht] at hreach hafter
      have hfirst := h.same hsame hlen ⟨hreach, by simpa [ht] using hafter⟩
      obtain ⟨u, hu, hplace⟩ := hfirst.some_of_some ht
      rw [hu]
      exact .some hplace

theorem optional (h : Local F n p q) : Local F n (Reader.optional p) (Reader.optional q) where
  forward hlen ht := by
    rw [Reads.taken_optional, Option.or_eq_some_iff] at ht
    rcases ht with ht | ⟨-, ht⟩
    · obtain ⟨u, hu, rfl⟩ := Option.map_eq_some_iff.mp ht
      exact h.forward hlen hu
    · obtain rfl := Option.some.inj ht
      exact ⟨Nat.le_refl _, rfl⟩
  fails {place} _ ht := by
    rw [Reads.taken_optional, Option.or_eq_none_iff] at ht
    exact absurd ht.2 (Option.some_ne_none _)
  same {place place'} hsame hlen hwithin := by
    obtain ⟨hreach, hafter⟩ := hwithin
    simp only [Reader.optional] at hreach hafter
    unfold Fork.SameReading
    rw [Reads.taken_optional, Reads.taken_optional]
    cases ht : (p place).taken with
    | none =>
      simp only [ht] at hreach
      rw [(h.same hsame hlen ⟨hreach, by simp [ht]⟩).none_of_none ht]
      exact .some hsame
    | some t =>
      simp only [ht] at hreach hafter
      obtain ⟨u, hu, hplace⟩ :=
        (h.same hsame hlen ⟨hreach, by simpa [ht] using hafter⟩).some_of_some ht
      rw [hu]
      exact .some hplace

/-- A repetition takes nothing, or a node with at least one token and then more nodes. -/
theorem many_outcome (p : Reader α) (place : Place) :
    Reader.many p place = ⟨some ⟨[], place, []⟩, (p place).furthest⟩ ∧
        (∀ t ∈ (p place).taken, ¬ t.after.rest.length < place.rest.length) ∨
      ∃ t, (p place).taken = some t ∧ t.after.rest.length < place.rest.length ∧
        Reader.many p place = ⟨(Reader.many p t.after).taken.map fun u =>
          ⟨t.value :: u.value, u.after, t.conflicts ++ u.conflicts⟩,
            Furthest.merge (p place).furthest (Reader.many p t.after).furthest⟩ := by
  rw [Reader.many.eq_def]
  obtain ⟨_ | t, m⟩ := p place
  · exact .inl ⟨rfl, by simp⟩
  · by_cases hshort : t.after.rest.length < place.rest.length
    · exact .inr ⟨t, rfl, hshort, by simp only [if_pos hshort]⟩
    · exact .inl ⟨by simp only [if_neg hshort], by simpa using hshort⟩

/-- A repetition always succeeds. -/
theorem exists_taken_many (h : Local F n p q) {place : Place} (hlen : place.rest.length < n) :
    ∃ t, (Reader.many p place).taken = some t ∧ place.index ≤ t.after.index ∧
      t.after.index + t.after.rest.length = place.index + place.rest.length := by
  induction hk : place.rest.length using Nat.strongRecOn generalizing place with
  | _ k ih =>
    rcases many_outcome p place with ⟨hmany, -⟩ | ⟨t, ht, hshort, hmany⟩
    · rw [hmany]
      exact ⟨_, rfl, Nat.le_refl _, by rw [hk]⟩
    · obtain ⟨u, hu, hforward⟩ := ih _ (hk ▸ hshort) (Nat.lt_trans hshort hlen) rfl
      have hfirst := h.forward hlen ht
      rw [hmany, hu]
      exact ⟨_, rfl, Nat.le_trans hfirst.1 hforward.1, hforward.2.trans (hk ▸ hfirst.2)⟩

/-- If only shared tokens are looked at by a repetition, so they are by its first attempt and by the repetition
behind it. -/
theorem within_of_many (h : Local F n p q) {place : Place} (hlen : place.rest.length < n)
    (hwithin : F.Within (Reader.many p place)) : F.Within (p place) ∧ ∀ t, (p place).taken = some t →
      t.after.rest.length < place.rest.length → F.Within (Reader.many p t.after) := by
  rcases many_outcome p place with ⟨hmany, hstop⟩ | ⟨t, ht, hshort, hmany⟩
  · rw [hmany] at hwithin
    refine ⟨⟨hwithin.reach, fun t ht => ?_⟩, fun t ht hshort => absurd hshort (hstop t ht)⟩
    -- A node of no tokens ends where the repetition does.
    have hplace : place.index ≤ F.bound := hwithin.after _ rfl
    have hforward := (h.forward hlen ht).2
    have hlong := hstop t ht
    omega
  · rw [hmany] at hwithin
    obtain ⟨hreach, hafter⟩ := hwithin
    simp only [Furthest.reach_merge] at hreach
    obtain ⟨v, hv, hforward, -⟩ := h.exists_taken_many (Nat.lt_trans hshort hlen)
    have hbound : v.after.index ≤ F.bound :=
      hafter ⟨t.value :: v.value, v.after, t.conflicts ++ v.conflicts⟩ (Option.mem_map_of_mem _ hv)
    refine ⟨⟨by omega, fun t' ht' => ?_⟩, fun t' ht' _ => ?_⟩
    · obtain rfl := Option.some.inj (ht.symm.trans ht')
      omega
    · obtain rfl := Option.some.inj (ht.symm.trans ht')
      exact ⟨by omega, fun w hw => by rwa [Option.some.inj (hw.symm.trans hv)]⟩

theorem many (h : Local F n p q) : Local F n (Reader.many p) (Reader.many q) where
  forward hlen ht := by
    obtain ⟨t, ht', hforward⟩ := h.exists_taken_many hlen
    obtain rfl := Option.some.inj (ht'.symm.trans ht)
    exact hforward
  fails hlen ht := by
    obtain ⟨t, ht', -⟩ := h.exists_taken_many hlen
    exact absurd (ht.symm.trans ht') (Option.some_ne_none _).symm
  same {place place'} hsame hlen hwithin := by
    induction hk : place.rest.length using Nat.strongRecOn generalizing place place' with
    | _ k ih =>
      obtain ⟨hfirst, hmore⟩ := h.within_of_many hlen hwithin
      unfold Fork.SameReading
      rcases (h.same hsame hlen hfirst).cases with ⟨ht, hu⟩ | ⟨t, u, ht, hu, hplace⟩
      · rw [Reads.taken_many_none ht, Reads.taken_many_none hu]
        exact .some hsame
      · by_cases hshort : t.after.rest.length < place.rest.length
        · have hshort' : u.after.rest.length < place'.rest.length := (hsame.shorter hplace).mp hshort
          have hrest := ih _ (hk ▸ hshort) hplace (Nat.lt_trans hshort hlen) (hmore t ht hshort) rfl
          obtain ⟨v, hv, -⟩ := h.exists_taken_many (Nat.lt_trans hshort hlen)
          obtain ⟨w, hw, hplace'⟩ := hrest.some_of_some hv
          rw [Reads.taken_many_some ht hshort, Reads.taken_many_some hu hshort', hv, hw]
          exact .some hplace'
        · have hshort' : ¬ u.after.rest.length < place'.rest.length := mt (hsame.shorter hplace).mpr hshort
          rw [Reader.many.eq_def, Reader.many.eq_def]
          simp only [ht, hu, if_neg hshort, if_neg hshort']
          exact .some hsame

theorem many1 (h : Local F n p q) : Local F n (Reader.many1 p) (Reader.many1 q) :=
  h.bind fun _ _ => h.many.andReturn _ _

/-- If the body stays local as soon as the inner reader is where fewer tokens are left, then so is the whole
reader. -/
theorem fix_of_le {body body' : Reader α → Reader α}
    (h : ∀ k < m, ∀ inner inner', Local F k inner inner' → Local F (k + 1) (body inner) (body' inner'))
    (hm : n ≤ m) : Local F n (Reader.fix body) (Reader.fix body') := by
  induction n with
  | zero =>
    exact ⟨fun hlen => absurd hlen (Nat.not_lt_zero _), fun hlen => absurd hlen (Nat.not_lt_zero _),
      fun _ hlen => absurd hlen (Nat.not_lt_zero _)⟩
  | succ n ih =>
    have ih : Local F n (Reader.fix body) (Reader.fix body') := ih (Nat.le_of_succ_le hm)
    -- Unfolded once, the first reader is its body around a reader of places with fewer tokens.
    have hunfold (place : Place) (hlen : place.rest.length < n + 1) (inner' : Reader α)
        (hinner' : ∀ q q', F.SamePlace q q' → q.rest.length < place.rest.length →
          inner' q' = Reader.fix body' q') :
        Local F (place.rest.length + 1)
          (body fun q => if q.rest.length < place.rest.length then Reader.fix body q else ⟨none, none⟩)
          (body' inner') :=
      h place.rest.length (by omega) _ _
        ((ih.of_le (Nat.le_of_lt_succ hlen)).of_eq (fun q hq => if_pos hq) hinner')
    exact {
      forward := fun {place t} hlen ht => by
        rw [Reader.fix.eq_def] at ht
        exact (hunfold place hlen _ fun _ _ _ _ => rfl).forward (Nat.lt_succ_self _) ht
      fails := fun {place} hlen ht => by
        rw [Reader.fix.eq_def] at ht ⊢
        exact (hunfold place hlen _ fun _ _ _ _ => rfl).fails (Nat.lt_succ_self _) ht
      same := fun {place place'} hsame hlen hwithin => by
        rw [Reader.fix.eq_def] at hwithin ⊢
        rw [Reader.fix.eq_def body']
        refine (hunfold place hlen _ fun q q' hq hshort => ?_).same hsame (Nat.lt_succ_self _) hwithin
        exact if_pos ((hsame.shorter hq).mp hshort) }

theorem fix {body body' : Reader α → Reader α}
    (h : ∀ k inner inner', Local F k inner inner' → Local F (k + 1) (body inner) (body' inner')) :
    Local F n (Reader.fix body) (Reader.fix body') :=
  fix_of_le (fun k _ => h k) (Nat.le_refl n)

end Local

/-! ## The grammar -/

namespace Grammar

open Reader

variable {F : Fork} {n : Nat}

/-! ### Expressions -/

theorem symbol_local : Local F n symbol symbol :=
  (Local.token _ _).withSpan.labelled _

theorem string_local : Local F n string string :=
  (Local.token _ _).withSpan.labelled _

theorem literal_local : Local F n literal literal :=
  (Local.token _ _).withSpan.labelled _

theorem chain_local (sign : Mark) (op : BinaryOp) {p q : Reader Expr} (h : Local F n p q) :
    Local F n (chain sign op p) (chain sign op q) :=
  h.bind fun _ _ => ((Local.mark sign).bind fun _ _ => h).many.andReturn _ _

theorem comparison_local {p q : Reader Expr} (h : Local F n p q) :
    Local F n (comparison p) (comparison q) :=
  h.bind fun _ _ => ((Local.token _ _).bind fun _ _ => h.andReturn _ _).optional.andReturn _ _

theorem negation_local {p q : Reader Expr} (h : Local F n p q) :
    Local F (n + 1) (negation p) (negation q) :=
  (Local.mark_bind .not fun _ _ => h.andReturn _ _).withSpan

theorem parenthesised_local {p q : Reader Expr} (h : Local F n p q) :
    Local F (n + 1) (parenthesised p) (parenthesised q) :=
  Local.mark_bind .leftParen fun _ _ => h.bind fun e e' =>
    (Local.mark .rightParen).andReturn (fun _ => e) fun _ => e'

theorem unary_local {p q : Reader Expr} (h : Local F n p q) : Local F (n + 1) (unary p) (unary q) := by
  refine .fix_of_le (m := n + 1) (fun k hk self self' hself => ?_) (Nat.le_refl _)
  exact (negation_local hself).orElse <| literal_local.orElse <| (symbol_local.map _).orElse <|
    parenthesised_local (h.of_le (Nat.le_of_lt_succ hk))

theorem expression_local : Local F n expression expression :=
  .labelled (.fix fun _ _ _ h => chain_local _ _ (chain_local _ _ (comparison_local (unary_local h)))) _

theorem condition_local : Local F n condition condition :=
  ((Local.keyword _).bind fun _ _ => expression_local).optional

/-! ### Properties -/

/-- A node that begins with a keyword. -/
theorem keyworded_local {α : Type} (c : Construct) (k : Keyword) {f g : Unit → Reader (Span → α)}
    (h : ∀ a b, Local F n (f a) (g b)) :
    Local F n (labelled c (withSpan (keyword k >>= f))) (labelled c (withSpan (keyword k >>= g))) :=
  ((Local.keyword k).bind h).withSpan.labelled c

theorem typeDecl_local : Local F n typeDecl typeDecl :=
  ((Local.token _ _).bind fun _ _ => (string_local.bind fun _ _ =>
    condition_local.andReturn _ _).optional.andReturn _ _).withSpan.labelled _

theorem prompt_local : Local F n prompt prompt :=
  keyworded_local _ _ fun _ _ => string_local.bind fun _ _ => condition_local.andReturn _ _

theorem defaultValue_local (word : Keyword) (literal : Expr → Expr) :
    Local F n (defaultValue word literal) (defaultValue word literal) :=
  (Local.keyword _).bind fun _ _ => expression_local.bind fun _ _ => condition_local.andReturn _ _

theorem default_local : Local F n default default :=
  ((defaultValue_local _ _).andReturn _ _).withSpan.labelled _

theorem defBool_local : Local F n defBool defBool :=
  ((defaultValue_local _ _).andReturn _ _).withSpan.labelled _

theorem defTristate_local : Local F n defTristate defTristate :=
  ((defaultValue_local _ _).andReturn _ _).withSpan.labelled _

theorem dependsOn_local : Local F n dependsOn dependsOn :=
  keyworded_local _ _ fun _ _ => (Local.keyword .on).bind fun _ _ => expression_local.andReturn _ _

theorem visibleIf_local : Local F n visibleIf visibleIf :=
  keyworded_local _ _ fun _ _ => (Local.keyword .ifCondition).bind fun _ _ => expression_local.andReturn _ _

theorem reference_local (word : Keyword) : Local F n (reference word) (reference word) :=
  (Local.keyword _).bind fun _ _ => symbol_local.bind fun _ _ => condition_local.andReturn _ _

theorem select_local : Local F n select select :=
  ((reference_local _).andReturn _ _).withSpan.labelled _

theorem imply_local : Local F n imply imply :=
  ((reference_local _).andReturn _ _).withSpan.labelled _

theorem defaultMember_local : Local F n defaultMember defaultMember :=
  ((reference_local _).andReturn _ _).withSpan.labelled _

theorem bound_local : Local F n bound bound :=
  literal_local.orElse (symbol_local.map _)

theorem range_local : Local F n range range :=
  keyworded_local _ _ fun _ _ => bound_local.bind fun _ _ => bound_local.bind fun _ _ =>
    condition_local.andReturn _ _

theorem help_local : Local F n help help :=
  (Local.token _ _).withSpan.labelled _

theorem option_local : Local F n option option :=
  keyworded_local _ _ fun _ _ => (Local.token _ _).bind fun _ _ =>
    ((Local.mark .equal).bind fun _ _ => string_local).optional.andReturn _ _

theorem entryProperty_local : Local F n entryProperty entryProperty :=
  typeDecl_local.orElse <| prompt_local.orElse <| default_local.orElse <| defBool_local.orElse <|
    defTristate_local.orElse <| dependsOn_local.orElse <| select_local.orElse <|
    imply_local.orElse <| range_local.orElse <| help_local.orElse option_local

theorem choiceProperty_local : Local F n choiceProperty choiceProperty :=
  typeDecl_local.orElse <| prompt_local.orElse <| defaultMember_local.orElse <|
    dependsOn_local.orElse <| help_local.orElse option_local

theorem menuProperty_local : Local F n menuProperty menuProperty :=
  dependsOn_local.orElse visibleIf_local

/-! ### Statements -/

theorem entry_local (word : Keyword) (name : Construct) : Local F n (entry word name) (entry word name) :=
  keyworded_local _ _ fun _ _ => symbol_local.bind fun _ _ => entryProperty_local.many.bind fun _ _ =>
    (Local.report _ _).andReturn _ _

theorem choice_local : Local F n choice choice :=
  keyworded_local _ _ fun _ _ => choiceProperty_local.many.bind fun _ _ =>
    (entry_local _ _).many1.bind fun _ _ => (Local.keyword .endchoice).andReturn _ _

theorem comment_local : Local F n comment comment :=
  keyworded_local _ _ fun _ _ => string_local.bind fun _ _ => dependsOn_local.many.andReturn _ _

theorem menu_local {p q : Reader Stmt} (h : Local F n p q) : Local F (n + 1) (menu p) (menu q) :=
  (Local.keyword_bind .menu fun _ _ => string_local.bind fun _ _ => menuProperty_local.many.bind fun _ _ =>
    h.many.bind fun _ _ => (Local.keyword .endmenu).andReturn _ _).withSpan.labelled _

theorem ifBlock_local {p q : Reader Stmt} (h : Local F n p q) : Local F (n + 1) (ifBlock p) (ifBlock q) :=
  (Local.keyword_bind .ifBlock fun _ _ => expression_local.bind fun _ _ => h.many.bind fun _ _ =>
    (Local.keyword .endif).andReturn _ _).withSpan.labelled _

theorem source_local : Local F n source source :=
  ((Local.token _ _).bind fun _ _ => string_local.andReturn _ _).withSpan.labelled _

theorem statement_local : Local F n statement statement :=
  .fix fun _ _ _ h => ((entry_local _ _).map _).orElse <| ((entry_local _ _).map _).orElse <|
    (choice_local.map _).orElse <| (comment_local.map _).orElse <| (menu_local h).orElse <|
    (ifBlock_local h).orElse (source_local.map _)

theorem mainMenu_local : Local F n mainMenu mainMenu :=
  keyworded_local _ _ fun _ _ => string_local.andReturn _ _

theorem file_local (id id' : FileId) : Local F n (file id) (file id') :=
  mainMenu_local.optional.bind fun _ _ => statement_local.many.andReturn _ _

end Grammar

/-! ## Whole lists -/

/-- If attempts looked at a token, at none behind it, and did not take it, then no list with the same tokens up
to that one is read to its end. -/
theorem Local.stuck {α : Type} {p q : Reader α} (h : ∀ F n, Local F n p q) {us vs ws : List Lexed} {t : Lexed}
    (hreach : Furthest.reach (p ⟨us ++ t :: vs, 0, 0⟩).furthest ≤ us.length + 1)
    (hafter : ∀ u ∈ (p ⟨us ++ t :: vs, 0, 0⟩).taken, u.after.index ≤ us.length)
    (hws : (us ++ [t]).map Lexed.token <+: ws.map Lexed.token) :
    ∀ u ∈ (q ⟨ws, 0, 0⟩).taken, u.after.rest ≠ [] := by
  obtain ⟨more, hmore⟩ := hws
  obtain ⟨shared', right, rfl, hshared, -⟩ := List.map_eq_append_iff.mp hmore.symm
  let F : Fork := ⟨us.length + 1, vs, right⟩
  have hsame : F.SamePlace ⟨us ++ t :: vs, 0, 0⟩ ⟨shared' ++ right, 0, 0⟩ := by
    refine ⟨us ++ [t], shared', ?_, rfl, hshared, ?_⟩
    · rw [List.append_assoc, List.singleton_append]
    · rw [List.length_append, List.length_singleton, Nat.zero_add]
  have hreading := (h F ((us ++ t :: vs).length + 1)).same hsame (Nat.lt_succ_self _)
    ⟨hreach, fun u hu => Nat.le_succ_of_le (hafter u hu)⟩
  intro u hu
  cases ht : (p ⟨us ++ t :: vs, 0, 0⟩).taken with
  | none =>
    rw [Option.mem_def, hreading.none_of_none ht] at hu
    exact absurd hu (Option.some_ne_none _).symm
  | some v =>
    obtain ⟨u', hu', rest, rest', -, hrest, htokens, hlength⟩ := hreading.some_of_some ht
    obtain rfl : u' = u := Option.some.inj (hu'.symm.trans hu)
    -- The shared token that was not taken is still to be read.
    have htaken : v.after.index ≤ us.length := hafter v ht
    have hne : rest' ≠ [] := by
      rintro rfl
      obtain rfl : rest = [] := List.map_eq_nil_iff.mp htokens.symm
      have hlength : v.after.index + 0 = us.length + 1 := hlength
      omega
    rw [hrest]
    exact List.append_ne_nil_of_left_ne_nil hne _

end KconfigLang
