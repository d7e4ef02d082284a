import KconfigLang.Proofs.Files.SourceMap
import KconfigLang.Proofs.Inclusion.Runs

/-!
# Numbers in sessions

A session registers every file that it reads under the next number, and nothing else. So how many files it has
registered tells whether the last number is in use, and with that whether the program has a result.

- `Entry`: what a session starts with.
- `Numbers`: a step that registers files under the next numbers only; one rule for each way to build a step.
- `Resolver.later_session`: whole sessions.
- `Resolver.ending?_session`: when the program has a result.
- `Resolver.registrations_session`: it registers the files of a session one by one, unless it stops at one of them.
-/

namespace KconfigLang

open SourceMap

/-! ## Where sessions start -/

/-- What a session starts with. -/
inductive Entry where
  | file (path : Path)
  | tree (root : Root)

namespace Entry

/-- The name of the root where no file is being expanded. -/
def label : Entry → Path
  | file path => path
  | tree root => root.path.getD ⟨"<input>"⟩

/-- The number of the root, from which a session counts its files. -/
def number : Entry → FileId
  | file _ => .root
  | tree root => root.file

end Entry

namespace Resolver

/-- The session itself. -/
def session (r : Resolver) : Entry → SessionM ResolvedTree
  | .file path => r.fileSession path
  | .tree root => r.rootSession root

/-- The files of a session that was given a tree: its root, without a text. -/
def givenSources (r : Resolver) (root : Root) : SourceMap :=
  empty.insertWrapping root.file ((root.path.map r.canonicalOrSelf).getD (root.path.getD ⟨"<input>"⟩)) none

/-- The files of a session before it reads one. -/
def firstSources (r : Resolver) : Entry → SourceMap
  | .file _ => empty
  | .tree root => r.givenSources root

/-- The files that the program has then, unless it stops before. -/
def firstSources? (r : Resolver) : Entry → Option SourceMap
  | .file _ => some empty
  | .tree root =>
    empty.insert? root.file ((root.path.map r.canonicalOrSelf).getD (root.path.getD ⟨"<input>"⟩)) none

end Resolver

/-! ## Steps -/

/-- Whether or not it fails, a step registers files under the next numbers only, and known ones. -/
def Numbers {α : Type} (known : Path → Prop) (step : SessionM α) : Prop :=
  ∀ s, Later known s.sources (step.run.run s).2.sources

section Rules

variable {α β : Type} {known : Path → Prop} {step : SessionM α}

theorem numbers_of_same (h : ∀ s, (step.run.run s).2.sources = s.sources) : Numbers known step := by
  intro s
  rw [h s]
  exact .refl

theorem Numbers.bind {f : α → SessionM β} (h : Numbers known step)
    (hf : ∀ s a s', step.run.run s = (.ok a, s') → Numbers known (f a)) : Numbers known (step >>= f) := by
  intro s
  have hstep := h s
  rw [run_bind]
  cases hrun : step.run.run s with
  | mk result s' =>
    rw [hrun] at hstep
    cases result with
    | error e => exact hstep
    | ok a => exact hstep.trans (hf s a s' hrun s')

theorem Numbers.spliceAll {included : Source → SessionM (List Stmt)} {emptied : Choice → SessionM (List Stmt)}
    (hincluded : ∀ source, Numbers known (included source)) (hemptied : ∀ c, Numbers known (emptied c))
    (block : List Stmt) : Numbers known (Stmt.spliceAll included emptied block) :=
  have hrespected : Respected fun {_} step _ => Numbers known step :=
    { pure := fun _ => numbers_of_same fun _ => rfl
      bind := fun h hf => h.bind fun _ a _ _ => hf a }
  @Respected.spliceAll _ included included emptied emptied hrespected hincluded hemptied block

end Rules

namespace Resolver

variable {r : Resolver} {entry : Entry}

/-- The files of a session have canonical paths. -/
def IsCanonical (r : Resolver) (path : Path) : Prop :=
  ∃ asked, r.loader.canonicalize asked = .ok path

theorem numbers_load {path : Path} (h : r.IsCanonical path) : Numbers r.IsCanonical (r.load path) := by
  intro s
  cases hlookup : s.parsed.lookup path with
  | some root =>
    rw [run_load_of_lookup hlookup]
    exact .refl
  | none =>
    rw [run_load_of_read hlookup]
    cases r.loader.read path with
    | error e => exact .refl
    | ok text =>
      simp only
      cases parse ⟨s.sources.next⟩ text <;> exact .single ⟨path, some text, h, rfl⟩

theorem numbers_locate (r : Resolver) (label : Path) (stack : List Path) (source : Source) :
    Numbers r.IsCanonical (r.locate label stack source) := by
  refine numbers_of_same fun s => ?_
  rw [run_locate]
  cases r.stop? s.expansions <;> rfl

theorem numbers_refuseChoice (r : Resolver) (label : Path) (stack : List Path) (c : Choice) :
    Numbers r.IsCanonical (refuseChoice label stack c) :=
  numbers_of_same fun _ => rfl

theorem numbers_includeSource (r : Resolver) (label : Path) (room : Nat) (stack : List Path) (source : Source) :
    Numbers r.IsCanonical (r.includeSource label room stack source) := by
  induction room generalizing stack source with
  | zero =>
    refine (r.numbers_locate label stack source).bind fun _ target _ _ => ?_
    cases target <;> exact numbers_of_same fun _ => rfl
  | succ room ih =>
    refine (r.numbers_locate label stack source).bind fun _ target _ hlocate => ?_
    cases target with
    | none => exact numbers_of_same fun _ => rfl
    | some path =>
      refine (numbers_load ⟨_, (locates_of_run hlocate).1.1⟩).bind fun _ root _ _ => ?_
      exact .spliceAll (ih (path :: stack)) (r.numbers_refuseChoice label _) root.statements

theorem numbers_finish (r : Resolver) (label : Path) (stack : List Path) (root : Root) :
    Numbers r.IsCanonical (r.finish label stack root) := by
  refine Numbers.bind ?_ fun _ _ _ _ => numbers_of_same fun _ => rfl
  exact .spliceAll (r.numbers_includeSource label _ stack) (r.numbers_refuseChoice label stack) root.statements

/-! ## Whole sessions -/

/-- The files of a session are those that it started with, and more under the next numbers. -/
theorem later_session (r : Resolver) (entry : Entry) :
    Later r.IsCanonical (r.firstSources entry) ((r.session entry).run.run .start).2.sources := by
  cases entry with
  | file path =>
    show Later r.IsCanonical Session.start.sources ((r.fileSession path).run.run .start).2.sources
    unfold fileSession
    cases hfile : r.loader.canonicalize path with
    | error e => exact .refl
    | ok file => exact (numbers_load ⟨path, hfile⟩).bind (fun _ root _ _ => r.numbers_finish path [file] root) .start
  | tree root => exact r.numbers_finish _ _ root { Session.start with sources := r.givenSources root }

theorem counted_session (r : Resolver) (entry : Entry) :
    ((r.session entry).run.run .start).2.sources.Counted entry.number.index.toNat := by
  refine (r.later_session entry).counted ?_
  cases entry with
  | file path => exact counted_empty
  | tree root => exact counted_insert root.file _ none

/-- The last number is in use at the end of a session if there are too many files for the numbers. -/
theorem overflowed_session_iff (r : Resolver) (entry : Entry) :
    ((r.session entry).run.run .start).2.sources.overflowed = true ↔
      UInt32.size ≤ entry.number.index.toNat + ((r.session entry).run.run .start).2.sources.size :=
  (r.counted_session entry).overflowed_iff

theorem ending?_eq (r : Resolver) (session : SessionM ResolvedTree) : r.ending? session =
    if r.hasDeadline && !(session.run.run .start).2.sources.overflowed then some (session.run.run .start).1 else none :=
  rfl

theorem ending?_eq_some_iff {session : SessionM ResolvedTree} {result : Except ResolveError ResolvedTree} :
    r.ending? session = some result ↔ r.hasDeadline = true ∧
      (session.run.run .start).2.sources.overflowed = false ∧ (session.run.run .start).1 = result := by
  simp [ending?_eq, and_assoc]

/-- The program has a result if the clock can show the end of the time limit and there are numbers for all files. -/
theorem ending?_session (r : Resolver) (entry : Entry) : r.ending? (r.session entry) =
    if r.hasDeadline = true ∧
        entry.number.index.toNat + ((r.session entry).run.run .start).2.sources.size < UInt32.size then
      some ((r.session entry).run.run .start).1
    else none := by
  refine (ending?_eq r _).trans (if_congr ?_ rfl rfl)
  rw [← Nat.not_le, ← overflowed_session_iff]
  simp

theorem resolveFile?_eq_none {path : Path} {result : Except ResolveError ResolvedTree} {s : Session}
    (h : (r.fileSession path).run.run .start = (result, s)) (hsize : UInt32.size ≤ s.sources.size) :
    r.resolveFile? path = none := by
  refine (r.ending?_session (.file path)).trans (if_neg fun hroom => Nat.not_le_of_lt hroom.2 ?_)
  show UInt32.size ≤ 0 + ((r.fileSession path).run.run .start).2.sources.size
  rw [h, Nat.zero_add]
  exact hsize

theorem firstSources?_eq (r : Resolver) (entry : Entry) : r.firstSources? entry =
    if (r.firstSources entry).overflowed = true then none else some (r.firstSources entry) := by
  cases entry with
  | file path => rfl
  | tree root => exact if_congr (overflowed_insert_iff _ _ _).symm rfl rfl

/-- The program registers the files of a session one by one. If the numbers run out it stops with the tree that it was
given, or at a file for which there is no number. -/
theorem registrations_session (r : Resolver) (entry : Entry) :
    (((r.session entry).run.run .start).2.sources.overflowed = false → ∃ map, r.firstSources? entry = some map ∧
      Relation.ReflTransGen (Registers? r.IsCanonical) map ((r.session entry).run.run .start).2.sources) ∧
    (((r.session entry).run.run .start).2.sources.overflowed = true → r.firstSources? entry = none ∨
      ∃ map stop, r.firstSources? entry = some map ∧ Relation.ReflTransGen (Registers? r.IsCanonical) map stop ∧
        ∀ path text, stop.add? path text = none) := by
  have hlater := r.later_session entry
  rw [firstSources?_eq]
  cases hfirst : (r.firstSources entry).overflowed with
  | true => exact ⟨fun hlast => absurd (hlater.overflowed hfirst) (by simp [hlast]), fun _ => .inl rfl⟩
  | false =>
    refine ⟨fun hlast => ⟨_, rfl, hlater.registers hlast⟩, fun hlast => .inr ?_⟩
    obtain ⟨stop, hstop, hnone⟩ := hlater.exists_stop hfirst hlast
    exact ⟨_, stop, rfl, hstop, hnone⟩

end Resolver

end KconfigLang
