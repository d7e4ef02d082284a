import KconfigLang.Inclusion.Resolve

/-!
# Runs of sessions

What a step of a session does when it is run from a given session.

- `run_bind`: steps that are run one after another.
- `Resolver.stop?`: what stops a session before an inclusion.
- `Resolver.lead` and `Resolver.Locates`: where an inclusion leads.
- `Resolver.run_locate` and `Resolver.run_load_of_read`: the two steps that look at files.
- `Respected`: relations between the steps of two sessions that splicing respects.
-/

namespace KconfigLang

/-! ## Steps one after another -/

section Rules

variable {α β : Type}

theorem run_pure (a : α) (s : Session) : (pure a : SessionM α).run.run s = (.ok a, s) := rfl

theorem run_throw (e : ResolveError) (s : Session) : (throw e : SessionM α).run.run s = (.error e, s) := rfl

theorem run_get (s : Session) : (get : SessionM Session).run.run s = (.ok s, s) := rfl

theorem run_modify (f : Session → Session) (s : Session) :
    (modify f : SessionM Unit).run.run s = (.ok (), f s) := rfl

theorem run_bind (step : SessionM α) (f : α → SessionM β) (s : Session) :
    (step >>= f).run.run s = match step.run.run s with
      | (.ok a, s') => (f a).run.run s'
      | (.error e, s') => (.error e, s') := by
  rw [ExceptT.run_bind, StateT.run_bind]
  rcases step.run.run s with ⟨e | a, s'⟩ <;> rfl

end Rules

namespace Resolver

variable {r : Resolver} {s : Session}

/-! ## Before an inclusion -/

/-- What stops a session that has expanded the paths of `count` inclusions. -/
def stop? (r : Resolver) (count : Nat) : Option ResolveError :=
  if r.surroundings.cancelled count = true then some .cancelled
  else match r.limits.timeLimit with
    | none => none
    | some limit => if limit ≤ r.surroundings.elapsed count then some (.timedOut limit) else none

theorem run_checkpoint (r : Resolver) (s : Session) :
    r.checkpoint.run.run s = match r.stop? s.expansions with
      | some e => (.error e, s)
      | none => (.ok (), s) := by
  unfold checkpoint stop?
  rw [run_bind, run_get]
  by_cases hcancelled : r.surroundings.cancelled s.expansions = true
  · simp only [if_pos hcancelled]
    rw [run_bind, run_throw]
  · simp only [if_neg hcancelled]
    cases r.limits.timeLimit with
    | none => exact run_pure () s
    | some limit =>
      by_cases hlate : limit ≤ r.surroundings.elapsed s.expansions
      · simp only [if_pos hlate]
        exact run_throw _ s
      · simp only [if_neg hlate]
        exact run_pure () s

/-- A session is stopped because it was cancelled or because it has run out of time. -/
theorem cases_of_stop? {count : Nat} {e : ResolveError} (h : r.stop? count = some e) :
    r.surroundings.cancelled count = true ∧ e = .cancelled ∨
      ∃ limit, r.limits.timeLimit = some limit ∧ e = .timedOut limit := by
  unfold stop? at h
  split at h
  · rename_i hcancelled
    exact .inl ⟨hcancelled, (Option.some.inj h).symm⟩
  · split at h
    · exact nomatch h
    · rename_i limit hlimit
      split at h
      · exact .inr ⟨limit, hlimit, (Option.some.inj h).symm⟩
      · exact nomatch h

/-! ## Where an inclusion leads -/

/-- What an inclusion may lead to: a file that is not being expanded, or nothing if it is optional. -/
def Locates (r : Resolver) (stack : List Path) (source : Source) : Option Path → Prop
  | some path => r.loader.canonicalize (r.target stack source) = .ok path ∧ path ∉ stack
  | none => source.kind.isOptional = true ∧
    ∃ e, r.loader.canonicalize (r.target stack source) = .error e ∧ e.kind = .notFound

/-- Where an inclusion leads: to a file that is not being expanded, or nowhere if it is optional. -/
def lead (r : Resolver) (label : Path) (stack : List Path) (source : Source) :
    Except ResolveError (Option Path) :=
  match r.loader.canonicalize (r.target stack source) with
  | .ok path =>
    if path ∈ stack then .error (.cycle (path :: stack).reverse (referrer label stack) source.span)
    else .ok (some path)
  | .error e =>
    if source.kind.isOptional = true ∧ e.kind = .notFound then .ok none
    else .error (.noTarget (r.target stack source) (referrer label stack) source.span e)

section Lead

variable {label : Path} {stack : List Path} {source : Source}

/-- An inclusion leads to what it may lead to, or it fails in one of two ways. -/
theorem lead_cases (r : Resolver) (label : Path) (stack : List Path) (source : Source) :
    (∃ target, r.lead label stack source = .ok target ∧ r.Locates stack source target) ∨
    (∃ path, r.lead label stack source = .error (.cycle (path :: stack).reverse (referrer label stack) source.span) ∧
      r.loader.canonicalize (r.target stack source) = .ok path ∧ path ∈ stack) ∨
    (∃ e, r.lead label stack source =
        .error (.noTarget (r.target stack source) (referrer label stack) source.span e) ∧
      r.loader.canonicalize (r.target stack source) = .error e ∧
      ¬ (source.kind.isOptional = true ∧ e.kind = .notFound)) := by
  unfold lead
  cases htarget : r.loader.canonicalize (r.target stack source) with
  | ok path =>
    by_cases hmem : path ∈ stack
    · exact .inr (.inl ⟨path, if_pos hmem, rfl, hmem⟩)
    · exact .inl ⟨some path, if_neg hmem, htarget, hmem⟩
  | error e =>
    by_cases hskip : source.kind.isOptional = true ∧ e.kind = .notFound
    · exact .inl ⟨none, if_pos hskip, hskip.1, e, htarget, hskip.2⟩
    · exact .inr (.inr ⟨e, if_neg hskip, rfl, hskip⟩)

theorem locates_of_lead {target : Option Path} (h : r.lead label stack source = .ok target) :
    r.Locates stack source target := by
  rcases r.lead_cases label stack source with ⟨target', hok, hlocates⟩ | ⟨_, herror, -⟩ | ⟨_, herror, -⟩
  · obtain rfl := Except.ok.inj (hok.symm.trans h)
    exact hlocates
  · exact nomatch herror.symm.trans h
  · exact nomatch herror.symm.trans h

end Lead

/-- An inclusion is counted and followed unless the session is stopped. -/
theorem run_locate (r : Resolver) (label : Path) (stack : List Path) (source : Source) (s : Session) :
    (r.locate label stack source).run.run s = match r.stop? s.expansions with
      | some e => (.error e, s)
      | none => (r.lead label stack source, { s with expansions := s.expansions + 1 }) := by
  unfold locate lead
  rw [run_bind, run_checkpoint]
  cases r.stop? s.expansions with
  | some e => rfl
  | none =>
    simp only
    rw [run_bind, run_modify]
    cases r.loader.canonicalize (r.target stack source) with
    | ok path =>
      by_cases hmem : path ∈ stack
      · simp only [List.contains_iff_mem.mpr hmem, if_true, if_pos hmem]
        exact run_throw _ _
      · simp only [List.contains_iff_mem, if_neg hmem]
        exact run_pure _ _
    | error e =>
      by_cases hskip : source.kind.isOptional = true ∧ e.kind = .notFound
      · have hcond : (source.kind.isOptional && e.kind == .notFound) = true := by simp [hskip]
        simp only [if_pos hcond, if_pos hskip]
        exact run_pure _ _
      · have hcond : ¬ (source.kind.isOptional && e.kind == .notFound) = true := by simpa using hskip
        simp only [if_neg hcond, if_neg hskip]
        exact run_throw _ _

/-- An inclusion that is followed leads to what it may lead to, and is counted. -/
theorem locates_of_run {label : Path} {stack : List Path} {source : Source} {target : Option Path} {s' : Session}
    (h : (r.locate label stack source).run.run s = (.ok target, s')) :
    r.Locates stack source target ∧ s' = { s with expansions := s.expansions + 1 } := by
  rw [run_locate] at h
  cases hstop : r.stop? s.expansions with
  | some e =>
    simp only [hstop] at h
    exact nomatch h
  | none =>
    simp only [hstop] at h
    obtain ⟨hlead, rfl⟩ := Prod.mk.inj h
    exact ⟨locates_of_lead hlead, rfl⟩

/-! ## Files -/

section Files

variable {path : Path}

/-- A file that is remembered is not read. -/
theorem run_load_of_lookup {root : Root} (h : s.parsed.lookup path = some root) :
    (r.load path).run.run s = (.ok root, s) := by
  unfold load
  rw [run_bind, run_get]
  simp only [h]
  exact run_pure root s

/-- A file that is read gets the next number. -/
theorem run_load_of_read (h : s.parsed.lookup path = none) :
    (r.load path).run.run s = match r.loader.read path with
      | .error e => (.error (.load (.io path e)), s)
      | .ok text => match parse ⟨s.sources.next⟩ text with
        | .error e => (.error (.load (.text path e)), { s with sources := (s.sources.addWrapping path (some text)).2 })
        | .ok tree => (.ok { tree with path := some path },
          { s with
            sources := (s.sources.addWrapping path (some text)).2
            parsed := if r.limits.cache then (path, { tree with path := some path }) :: s.parsed
              else s.parsed }) := by
  unfold load
  rw [run_bind, run_get]
  simp only [h]
  cases r.loader.read path with
  | error e => exact run_throw _ s
  | ok text =>
    simp only
    rw [run_bind, run_get]
    simp only [show (s.sources.addWrapping path (some text)).1 = ⟨s.sources.next⟩ from rfl]
    rw [run_bind, run_modify]
    cases parse ⟨s.sources.next⟩ text with
    | error e => exact run_throw _ _
    | ok tree =>
      by_cases hcache : r.limits.cache = true
      · simp only [if_pos hcache]
        rw [run_bind, run_modify]
        exact run_pure _ _
      · simp only [if_neg hcache]
        exact run_pure _ _

end Files

end Resolver

/-! ## Splicing -/

/-- A relation between the steps of two sessions that holds of steps which are built alike from related ones. -/
structure Respected (R : ∀ {α : Type}, SessionM α → SessionM α → Prop) : Prop where
  pure : ∀ {α : Type} (a : α), R (pure a : SessionM α) (pure a)
  bind : ∀ {α β : Type} {step step' : SessionM α} {f f' : α → SessionM β}, R step step' →
    (∀ a, R (f a) (f' a)) → R (step >>= f) (step' >>= f')

namespace Respected

variable {R : ∀ {α : Type}, SessionM α → SessionM α → Prop}
  {included included' : Source → SessionM (List Stmt)} {emptied emptied' : Choice → SessionM (List Stmt)}

mutual

theorem splice (h : @Respected R) (hincluded : ∀ source, R (included source) (included' source))
    (hemptied : ∀ c, R (emptied c) (emptied' c)) :
    ∀ s : Stmt, R (Stmt.splice included emptied s) (Stmt.splice included' emptied' s)
  | .source source => hincluded source
  | .menu _ body => h.bind (spliceAll h hincluded hemptied body) fun _ => h.pure _
  | .ifBlock _ body _ => h.bind (spliceAll h hincluded hemptied body) fun _ => h.pure _
  | .choice c => by
    rw [Stmt.splice, Stmt.splice]
    split
    · exact hemptied c
    · exact h.pure _
  | .config _ | .menuconfig _ | .comment _ => h.pure _

/-- Blocks are spliced alike if inclusions are. -/
theorem spliceAll (h : @Respected R) (hincluded : ∀ source, R (included source) (included' source))
    (hemptied : ∀ c, R (emptied c) (emptied' c)) :
    ∀ block : List Stmt, R (Stmt.spliceAll included emptied block) (Stmt.spliceAll included' emptied' block)
  | [] => h.pure _
  | s :: ss => h.bind (splice h hincluded hemptied s) fun _ =>
    h.bind (spliceAll h hincluded hemptied ss) fun _ => h.pure _

end

end Respected

end KconfigLang
