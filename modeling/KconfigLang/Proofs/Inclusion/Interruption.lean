import KconfigLang.Files.MemoryTree
import KconfigLang.Proofs.Inclusion.Runs

/-!
# Interrupted sessions

A session that is cancelled goes the same way as one that is not, up to the next inclusion: there it ends, and
nothing but the checks before inclusions looks at what happens around it. Where no inclusion is left it ends as
if it had not been cancelled. The same holds of a session that has no time at all.

- `Resolver.amid`: a session with another time limit and in other surroundings.
- `CutAt`: a step that is interrupted; one rule for each way to build a step.
- `Resolver.cutAt_includeSource`: inclusions.
- `Resolver.resolveFile_interrupted`: whole configurations.
-/

namespace KconfigLang

/-- Surroundings in which a session is never cancelled. -/
def Surroundings.calm (elapsed : Nat → Nat) : Surroundings :=
  { cancelled := fun _ => false, elapsed }

/-- Surroundings in which a session is cancelled while the path of its `n`-th inclusion is expanded, or before
it starts if `n` is zero. -/
def Surroundings.cancelAt (n : Nat) (elapsed : Nat → Nat) : Surroundings :=
  { cancelled := fun count => decide (n ≤ count), elapsed }

/-! ## Interrupted steps -/

/-- The second step is the first one, interrupted by the error `e` before any inclusion after the `n`-th one. -/
structure CutAt {α : Type} (n : Nat) (e : ResolveError) (step step' : SessionM α) : Prop where
  counts : ∀ s, s.expansions ≤ (step.run.run s).2.expansions
  completes : ∀ s, (step.run.run s).2.expansions ≤ n → step'.run.run s = step.run.run s
  stops : ∀ s, s.expansions ≤ n → n < (step.run.run s).2.expansions →
    ∃ u, step'.run.run s = (.error e, u) ∧ u.expansions = n

section Steps

variable {α β : Type} {n : Nat} {e : ResolveError} {step step' : SessionM α} {f f' : α → SessionM β}

/-- A step without inclusions is not interrupted. -/
theorem CutAt.refl (h : ∀ s, (step.run.run s).2.expansions = s.expansions) : CutAt n e step step where
  counts s := Nat.le_of_eq (h s).symm
  completes _ _ := rfl
  stops s hs hn := by
    rw [h s] at hn
    exact absurd hs (Nat.not_le.mpr hn)

theorem cutAt_throw (error : ResolveError) : CutAt n e (throw error : SessionM α) (throw error) :=
  .refl fun _ => rfl

theorem CutAt.bind (h : CutAt n e step step') (hf : ∀ a, CutAt n e (f a) (f' a)) :
    CutAt n e (step >>= f) (step' >>= f') where
  counts s := by
    have hstep := h.counts s
    rw [run_bind]
    generalize step.run.run s = outcome at hstep ⊢
    rcases outcome with ⟨error | a, s'⟩
    · exact hstep
    · exact Nat.le_trans hstep ((hf a).counts s')
  completes s hn := by
    rw [run_bind] at hn
    have hsame := h.completes s
    rw [run_bind, run_bind]
    generalize step.run.run s = outcome at hn hsame ⊢
    rcases outcome with ⟨error | a, s'⟩
    · rw [hsame hn]
    · have hs' : s'.expansions ≤ n := Nat.le_trans ((hf a).counts s') hn
      rw [hsame hs']
      exact (hf a).completes s' hn
  stops s hs hn := by
    rw [run_bind] at hn
    have hsame := h.completes s
    have hstops := h.stops s hs
    rw [run_bind]
    generalize step.run.run s = outcome at hn hsame hstops
    rcases outcome with ⟨error | a, s'⟩
    · obtain ⟨u, hu, hcount⟩ := hstops hn
      exact ⟨u, by rw [hu], hcount⟩
    · -- Either the first step is interrupted already, or it completes and the rest is interrupted.
      rcases Nat.lt_or_ge n s'.expansions with hlt | hle
      · obtain ⟨u, hu, hcount⟩ := hstops hlt
        exact ⟨u, by rw [hu], hcount⟩
      · rw [hsame hle]
        exact (hf a).stops s' hle hn

theorem respected_cutAt (n : Nat) (e : ResolveError) : Respected fun {_} => CutAt n e where
  pure _ := .refl fun _ => rfl
  bind := .bind

end Steps

/-! ## Inclusions -/

namespace Resolver

/-- The same session with another time limit and in other surroundings. -/
def amid (r : Resolver) (timeLimit : Option Nat) (surroundings : Surroundings) : Resolver :=
  { r with limits := { r.limits with timeLimit }, surroundings }

/-- A session is never stopped, and in other surroundings it is stopped after `n` inclusions. -/
structure StopsAt (r : Resolver) (timeLimit : Option Nat) (surroundings : Surroundings) (n : Nat)
    (e : ResolveError) : Prop where
  never : ∀ count, r.stop? count = none
  before : ∀ count < n, (r.amid timeLimit surroundings).stop? count = none
  stop : (r.amid timeLimit surroundings).stop? n = some e

section Inclusions

variable {r : Resolver} {timeLimit : Option Nat} {surroundings : Surroundings} {n : Nat} {e : ResolveError}

/-- The inclusion after the `n`-th one is not followed. -/
theorem StopsAt.cutAt_locate (h : r.StopsAt timeLimit surroundings n e) (label : Path) (stack : List Path)
    (source : Source) :
    CutAt n e (r.locate label stack source) ((r.amid timeLimit surroundings).locate label stack source) := by
  have hlocate : ∀ s, (r.locate label stack source).run.run s =
      (r.lead label stack source, { s with expansions := s.expansions + 1 }) := by
    intro s
    rw [run_locate, h.never]
  refine ⟨fun s => ?_, fun s hn => ?_, fun s hs hn => ?_⟩
  · rw [hlocate]
    exact Nat.le_succ _
  · rw [hlocate] at hn ⊢
    rw [run_locate, h.before _ (Nat.lt_of_succ_le hn)]
    rfl
  · rw [hlocate] at hn
    obtain rfl : s.expansions = n := Nat.le_antisymm hs (Nat.lt_succ_iff.mp hn)
    exact ⟨s, by rw [run_locate, h.stop], rfl⟩

theorem cutAt_load (r : Resolver) (timeLimit : Option Nat) (surroundings : Surroundings) (path : Path) :
    CutAt n e (r.load path) ((r.amid timeLimit surroundings).load path) := by
  refine CutAt.refl fun s => ?_
  cases hlookup : s.parsed.lookup path with
  | some root => rw [run_load_of_lookup hlookup]
  | none =>
    rw [run_load_of_read hlookup]
    cases r.loader.read path with
    | error e => rfl
    | ok text =>
      simp only
      cases parse ⟨s.sources.next⟩ text <;> rfl

theorem cutAt_refuseChoice (label : Path) (stack : List Path) (c : Choice) :
    CutAt n e (refuseChoice label stack c) (refuseChoice label stack c) :=
  .refl fun _ => rfl

/-- An inclusion is interrupted before one inside it is followed that comes after the `n`-th one. -/
theorem StopsAt.cutAt_includeSource (h : r.StopsAt timeLimit surroundings n e) (label : Path) (room : Nat)
    (stack : List Path) (source : Source) :
    CutAt n e (r.includeSource label room stack source)
      ((r.amid timeLimit surroundings).includeSource label room stack source) := by
  induction room generalizing stack source with
  | zero =>
    refine (h.cutAt_locate label stack source).bind fun target => ?_
    cases target with
    | none => exact (respected_cutAt n e).pure _
    | some path => exact cutAt_throw _
  | succ room ih =>
    refine (h.cutAt_locate label stack source).bind fun target => ?_
    cases target with
    | none => exact (respected_cutAt n e).pure _
    | some path =>
      refine (cutAt_load r timeLimit surroundings path).bind fun root => ?_
      exact (respected_cutAt n e).spliceAll (fun source => ih (path :: stack) source)
        (cutAt_refuseChoice label (path :: stack)) root.statements

theorem StopsAt.cutAt_fileSession (h : r.StopsAt timeLimit surroundings n e) (path : Path) :
    CutAt n e (r.fileSession path) ((r.amid timeLimit surroundings).fileSession path) := by
  unfold fileSession
  rw [show (r.amid timeLimit surroundings).loader = r.loader from rfl]
  cases r.loader.canonicalize path with
  | error e => exact cutAt_throw _
  | ok file =>
    refine (cutAt_load r timeLimit surroundings file).bind fun root => ?_
    have hblock : CutAt n e (r.expandBlock path [file] root.statements)
        ((r.amid timeLimit surroundings).expandBlock path [file] root.statements) :=
      (respected_cutAt n e).spliceAll (fun source => h.cutAt_includeSource path _ [file] source)
        (cutAt_refuseChoice path [file]) root.statements
    exact hblock.bind fun _ => .refl fun _ => rfl

end Inclusions

/-! ## Whole configurations -/

section Stops

variable (r : Resolver) (elapsed : Nat → Nat)

theorem stop?_calm (count : Nat) : (r.amid none (.calm elapsed)).stop? count = none := rfl

theorem stopsAt_cancelAt (n : Nat) :
    (r.amid none (.calm elapsed)).StopsAt none (.cancelAt n elapsed) n .cancelled where
  never := r.stop?_calm elapsed
  before count hcount := by simp [stop?, amid, Surroundings.cancelAt, Nat.not_le.mpr hcount]
  stop := by simp [stop?, amid, Surroundings.cancelAt]

theorem stopsAt_zero :
    (r.amid none (.calm elapsed)).StopsAt (some 0) (.calm elapsed) 0 (.timedOut 0) where
  never := r.stop?_calm elapsed
  before _ hcount := absurd hcount (Nat.not_lt_zero _)
  stop := by simp [stop?, amid, Surroundings.calm]

theorem stopsAt_cancelAt_zero :
    (r.amid none (.calm elapsed)).StopsAt (some 0) (.cancelAt 0 elapsed) 0 .cancelled where
  never := r.stop?_calm elapsed
  before _ hcount := absurd hcount (Nat.not_lt_zero _)
  stop := by simp [stop?, amid, Surroundings.cancelAt]

end Stops

/-- What becomes of the session over the file at a path: its outcome, and what the session then remembers. -/
def runFile (r : Resolver) (path : Path) : Except ResolveError ResolvedTree × Session :=
  (r.fileSession path).run.run .start

/-- One session is the other one, interrupted by the error `e` after `n` inclusions: it ends there with this
error if the other one goes on, and in the same way otherwise. -/
def InterruptedAt (n : Nat) (e : ResolveError) (whole cut : Except ResolveError ResolvedTree × Session) : Prop :=
  (n < whole.2.expansions → ∃ s, cut = (.error e, s) ∧ s.expansions = n) ∧
    (whole.2.expansions ≤ n → cut = whole)

theorem StopsAt.interruptedAt {r : Resolver} {timeLimit : Option Nat} {surroundings : Surroundings} {n : Nat}
    {e : ResolveError} (h : r.StopsAt timeLimit surroundings n e) (path : Path) :
    InterruptedAt n e (r.runFile path) ((r.amid timeLimit surroundings).runFile path) :=
  have hcut := h.cutAt_fileSession path
  ⟨hcut.stops .start (Nat.zero_le n), hcut.completes .start⟩

/-- **Interruption**: a session that is cancelled while the path of its `n`-th inclusion is expanded, or before
it starts, ends before the next inclusion after exactly `n` of them, and in the same way as one that is not
cancelled if it has no more. A session without any time is stopped like one that is cancelled before it starts,
with an error of its own unless it is cancelled too. -/
theorem runFile_interruptedAt (r : Resolver) (path : Path) (elapsed : Nat → Nat) (n : Nat) :
    InterruptedAt n .cancelled ((r.amid none (.calm elapsed)).runFile path)
        ((r.amid none (.cancelAt n elapsed)).runFile path) ∧
      InterruptedAt 0 (.timedOut 0) ((r.amid none (.calm elapsed)).runFile path)
        ((r.amid (some 0) (.calm elapsed)).runFile path) ∧
      InterruptedAt 0 .cancelled ((r.amid none (.calm elapsed)).runFile path)
        ((r.amid (some 0) (.cancelAt 0 elapsed)).runFile path) :=
  ⟨(r.stopsAt_cancelAt elapsed n).interruptedAt path, (r.stopsAt_zero elapsed).interruptedAt path,
    (r.stopsAt_cancelAt_zero elapsed).interruptedAt path⟩

/-- A missing file that may be missing, and a file that includes another one. -/
def nestedTree : MemoryTree :=
  ⟨[(⟨"/Kconfig"⟩, "osource \"none\"\nsource \"part\"\n"), (⟨"/part"⟩, "rsource \"last\"\nconfig A\n"),
    (⟨"/last"⟩, "config B\n")]⟩

/-- A session over the files of `nestedTree`. -/
def nested : Resolver :=
  { loader := nestedTree.loader, expandPath := id, base := ⟨"/"⟩ }

theorem nested_interruptedAt : 2 < ((nested.amid none (.calm id)).runFile ⟨"Kconfig"⟩).2.expansions ∧
    ∃ s, (nested.amid none (.cancelAt 2 id)).runFile ⟨"Kconfig"⟩ = (.error .cancelled, s) ∧ s.expansions = 2 := by
  have hmore : 2 < ((nested.amid none (.calm id)).runFile ⟨"Kconfig"⟩).2.expansions := by decide +kernel
  exact ⟨hmore, (runFile_interruptedAt nested ⟨"Kconfig"⟩ id 2).1.1 hmore⟩

end Resolver

end KconfigLang
