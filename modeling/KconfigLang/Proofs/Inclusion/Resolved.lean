import KconfigLang.Files.MemoryTree
import KconfigLang.Proofs.Grammar.Positions
import KconfigLang.Proofs.Inclusion.Numbering
import KconfigLang.Proofs.Inclusion.Yields

/-!
# Resolved blocks

What resolving leaves is resolved: no inclusion is left in it, and no choice without members, at any nesting.
What is resolved already stays as it is, and no file is read for it; so resolving twice is resolving once.

- `Stmt.IsResolved`: blocks with nothing left to resolve.
- `Resolver.yields_includeSource_isResolved`: what replaces an inclusion is resolved.
- `Stmt.spliceAll_of_isResolved`: splicing leaves a resolved block as it is.
- `Resolver.resolveRoot_isResolved`: whole configurations.
-/

namespace KconfigLang

namespace Stmt

/-- A statement that resolving leaves alone, whatever is inside it. -/
def IsSettled : Stmt → Prop
  | source _ => False
  | choice c => c.members ≠ []
  | config _ | menuconfig _ | menu _ _ | ifBlock _ _ _ | comment _ => True

instance : DecidablePred IsSettled
  | source _ => inferInstanceAs (Decidable False)
  | choice c => inferInstanceAs (Decidable (c.members ≠ []))
  | config _ | menuconfig _ | menu _ _ | ifBlock _ _ _ | comment _ => inferInstanceAs (Decidable True)

/-- A block without inclusions and without choices that have no members, at any nesting. -/
def IsResolved (block : List Stmt) : Prop :=
  ∀ s ∈ walkAll block, s.IsSettled

instance (block : List Stmt) : Decidable (IsResolved block) :=
  inferInstanceAs (Decidable (∀ s ∈ walkAll block, s.IsSettled))

theorem IsResolved.nil : IsResolved [] :=
  List.forall_mem_nil _

theorem walkAll_append (block more : List Stmt) : walkAll (block ++ more) = walkAll block ++ walkAll more := by
  induction block with
  | nil => rfl
  | cons s ss ih =>
    show walk s ++ walkAll (ss ++ more) = (walk s ++ walkAll ss) ++ walkAll more
    rw [ih, List.append_assoc]

theorem isResolved_append {block more : List Stmt} :
    IsResolved (block ++ more) ↔ IsResolved block ∧ IsResolved more := by
  unfold IsResolved
  rw [walkAll_append, List.forall_mem_append]

theorem isResolved_cons {s : Stmt} {ss : List Stmt} :
    IsResolved (s :: ss) ↔ IsResolved [s] ∧ IsResolved ss := by
  rw [← isResolved_append, List.singleton_append]

theorem isResolved_source (source : Source) : ¬ IsResolved [.source source] :=
  fun h => h _ List.mem_cons_self

theorem isResolved_choice {c : Choice} : IsResolved [.choice c] ↔ c.members ≠ [] :=
  List.forall_mem_singleton

theorem isResolved_menu {head : Menu} {body : List Stmt} : IsResolved [.menu head body] ↔ IsResolved body := by
  unfold IsResolved
  simp [walkAll, walk, IsSettled]

theorem isResolved_ifBlock {condition : Expr} {body : List Stmt} {span : Span} :
    IsResolved [.ifBlock condition body span] ↔ IsResolved body := by
  unfold IsResolved
  simp [walkAll, walk, IsSettled]

end Stmt

open Stmt

/-! ## What splicing leaves -/

section Splice

variable {I : Session → Prop} {E : ResolveError → Prop} {included : Source → SessionM (List Stmt)}
  {emptied : Choice → SessionM (List Stmt)}

mutual

theorem yields_splice_isResolved (hincluded : ∀ source, Yields I (included source) IsResolved E)
    (hemptied : ∀ c, Yields I (emptied c) (fun _ => False) E) :
    ∀ s : Stmt, Yields I (splice included emptied s) IsResolved E
  | .source src => hincluded src
  | .menu _ body => (yields_spliceAll_isResolved hincluded hemptied body).bind fun _ hinner =>
    yields_pure (isResolved_menu.mpr hinner)
  | .ifBlock _ body _ => (yields_spliceAll_isResolved hincluded hemptied body).bind fun _ hinner =>
    yields_pure (isResolved_ifBlock.mpr hinner)
  | .choice c => by
    rw [splice]
    split
    · exact (hemptied c).mono fun _ h => h.elim
    · rename_i hmembers
      exact yields_pure (isResolved_choice.mpr (by simpa using hmembers))
  | .config _ | .menuconfig _ | .comment _ => yields_pure (List.forall_mem_singleton.mpr trivial)

/-- Splicing leaves a resolved block if what replaces inclusions is resolved. -/
theorem yields_spliceAll_isResolved (hincluded : ∀ source, Yields I (included source) IsResolved E)
    (hemptied : ∀ c, Yields I (emptied c) (fun _ => False) E) :
    ∀ block : List Stmt, Yields I (spliceAll included emptied block) IsResolved E
  | [] => yields_pure .nil
  | s :: ss => (yields_splice_isResolved hincluded hemptied s).bind fun _ hfirst =>
    (yields_spliceAll_isResolved hincluded hemptied ss).bind fun _ hmore =>
      yields_pure (isResolved_append.mpr ⟨hfirst, hmore⟩)

end

end Splice

/-! ## What splicing leaves alone -/

namespace Stmt

section Splice

variable {m : Type → Type} [Monad m] [LawfulMonad m] {included : Source → m (List Stmt)}
  {emptied : Choice → m (List Stmt)}

mutual

theorem splice_of_isResolved : ∀ s : Stmt, IsResolved [s] → splice included emptied s = pure [s]
  | .source src, h => absurd h (isResolved_source src)
  | .menu _ body, h => by
    rw [splice, spliceAll_of_isResolved body (isResolved_menu.mp h), pure_bind]
  | .ifBlock _ body _, h => by
    rw [splice, spliceAll_of_isResolved body (isResolved_ifBlock.mp h), pure_bind]
  | .choice c, h => by
    rw [splice, if_neg (by simpa using isResolved_choice.mp h)]
  | .config _, _ | .menuconfig _, _ | .comment _, _ => rfl

/-- A resolved block stays as it is, whatever would replace an inclusion. -/
theorem spliceAll_of_isResolved : ∀ block : List Stmt, IsResolved block →
    spliceAll included emptied block = pure block
  | [], _ => rfl
  | s :: ss, h => by
    obtain ⟨hs, hss⟩ := isResolved_cons.mp h
    rw [spliceAll, splice_of_isResolved s hs, spliceAll_of_isResolved ss hss, pure_bind, pure_bind,
      List.singleton_append]

end

end Splice

end Stmt

namespace Resolver

variable {r : Resolver} {E : ResolveError → Prop}

/-! ## Sessions -/

theorem yields_refuseChoice {I : Session → Prop} (label : Path) (stack : List Path) (c : Choice) :
    Yields I (refuseChoice label stack c) (fun _ => False) fun _ => True :=
  yields_get.bind fun _ _ => yields_throw trivial

/-- What replaces an inclusion is resolved. -/
theorem yields_includeSource_isResolved (r : Resolver) (label : Path) (room : Nat) (stack : List Path)
    (source : Source) :
    Yields r.Remembers (r.includeSource label room stack source) IsResolved fun _ => True := by
  have hlocate : ∀ stack source, Yields r.Remembers (r.locate label stack source) (r.Locates stack source)
      fun _ => True := fun stack source =>
    yields_locate (fun _ _ => trivial) (fun _ _ => trivial) (fun _ _ _ => trivial) fun _ _ _ => trivial
  induction room generalizing stack source with
  | zero => exact yields_includeSource_zero (hlocate stack source) (fun _ => .nil) fun _ _ => trivial
  | succ room ih =>
    refine (hlocate stack source).bind fun target _ => ?_
    cases target with
    | none => exact yields_pure .nil
    | some path =>
      have hload : Yields r.Remembers (r.load path) (r.Loaded path) fun _ => True :=
        yields_load (fun _ _ => trivial) fun _ _ _ _ _ => trivial
      refine hload.bind fun root _ => ?_
      exact yields_spliceAll_isResolved (fun source => ih (path :: stack) source)
        (yields_refuseChoice label (path :: stack)) root.statements

/-- Whatever tree a session expands, what it makes of it is resolved. -/
theorem yields_finish_isResolved (r : Resolver) (label : Path) (stack : List Path) (root : Root) :
    Yields r.Remembers (r.finish label stack root) (fun tree => IsResolved tree.statements)
      fun _ => True := by
  have hblock : Yields r.Remembers (r.expandBlock label stack root.statements) IsResolved fun _ => True :=
    yields_spliceAll_isResolved (yields_includeSource_isResolved r label _ stack)
      (yields_refuseChoice label stack) root.statements
  exact hblock.bind fun _ h => yields_get.bind fun _ _ => yields_pure h

theorem isResolved_of_run_session {entry : Entry} {tree : ResolvedTree}
    (h : ((r.session entry).run.run .start).1 = .ok tree) : IsResolved tree.statements := by
  have hsession : Yields r.Remembers (r.session entry) (fun tree => IsResolved tree.statements) fun _ => True := by
    cases entry with
    | tree root => exact .bind (yields_modify fun _ hs => hs) fun _ _ => yields_finish_isResolved r _ _ root
    | file path =>
      simp only [session, fileSession]
      cases r.loader.canonicalize path with
      | error e => exact yields_throw trivial
      | ok file =>
        have hload : Yields r.Remembers (r.load file) (r.Loaded file) fun _ => True :=
          yields_load (fun _ _ => trivial) fun _ _ _ _ _ => trivial
        exact hload.bind fun root _ => yields_finish_isResolved r path [file] root
  exact hsession.of_run remembers_start h

/-! ## Whole configurations -/

/-- The same session over files with other texts. -/
def reading (r : Resolver) (read : Path → Except IoError String) : Resolver :=
  { r with loader := { r.loader with read } }

/-- A session over a resolved tree ends at once: it registers the root, and reads and remembers nothing. -/
theorem run_rootSession_of_isResolved (r : Resolver) (root : Root) (h : IsResolved root.statements) :
    (r.rootSession root).run.run .start =
      (.ok ⟨root.file, root.mainMenu, root.statements, r.givenSources root⟩, ⟨r.givenSources root, [], 0⟩) := by
  unfold rootSession finish expandBlock
  rw [run_bind, run_modify]
  simp only
  rw [spliceAll_of_isResolved root.statements h]
  rfl

/-- The program has the tree that it was given, unless that has the last number. -/
theorem resolveRoot?_of_isResolved (r : Resolver) (root : Root) (h : IsResolved root.statements) :
    r.resolveRoot? root = if r.hasDeadline = true ∧ root.file ≠ .last then
      some (.ok ⟨root.file, root.mainMenu, root.statements, r.givenSources root⟩) else none := by
  have hlast : (r.givenSources root).overflowed = true ↔ root.file = .last := SourceMap.overflowed_insert_iff _ _ _
  rw [resolveRoot?, ending?_eq, run_rootSession_of_isResolved r root h]
  refine if_congr ?_ rfl rfl
  rw [Ne, ← hlast]
  simp

theorem root_of_run_finish {label : Path} {stack : List Path} {root : Root} {s : Session} {tree : ResolvedTree}
    (h : ((r.finish label stack root).run.run s).1 = .ok tree) : tree.root = root.file := by
  unfold finish at h
  rw [run_bind] at h
  generalize (r.expandBlock label stack root.statements).run.run s = outcome at h
  rcases outcome with ⟨e | statements, s'⟩
  · exact nomatch h
  · obtain rfl := Except.ok.inj h
    rfl

/-- A tree has the number from which its session counts. -/
theorem root_of_run_session {entry : Entry} {tree : ResolvedTree}
    (h : ((r.session entry).run.run .start).1 = .ok tree) : tree.root = entry.number := by
  cases entry with
  | tree root => exact root_of_run_finish h
  | file path =>
    simp only [session, fileSession] at h
    cases hfile : r.loader.canonicalize path with
    | error e =>
      rw [hfile] at h
      exact nomatch h
    | ok file =>
      have hlookup : Session.start.parsed.lookup file = none := rfl
      simp only [hfile, run_bind, run_load_of_read hlookup] at h
      cases htext : r.loader.read file with
      | error e =>
        simp only [htext] at h
        exact nomatch h
      | ok text =>
        cases hparse : parse ⟨Session.start.sources.next⟩ text with
        | error e =>
          simp only [htext, hparse] at h
          exact nomatch h
        | ok root =>
          simp only [htext, hparse] at h
          rw [root_of_run_finish h, ← inFile_of_parse hparse]
          rfl

/-- The program has no tree with the last number. -/
theorem root_ne_last {entry : Entry} {tree : ResolvedTree} (h : r.ending? (r.session entry) = some (.ok tree)) :
    tree.root ≠ .last := by
  obtain ⟨-, hlast, hresult⟩ := ending?_eq_some_iff.mp h
  obtain ⟨map, hfirst, -⟩ := (r.registrations_session entry).1 hlast
  rw [root_of_run_session hresult]
  cases entry with
  | file path => exact fun hlast => nomatch hlast
  | tree root => exact fun hlast => nomatch (if_pos hlast).symm.trans hfirst

/-- **Resolution**: in what resolving yields, nothing is left to resolve, and to resolve it again, in whatever
session, changes neither the title nor the statements. A session over a tree in which there is nothing to
resolve succeeds with what it was given, whatever its files hold: none of them is read or registered, no
inclusion is counted and no tree remembered. The program has that tree unless it has the last number, or the clock
cannot show the end of the time limit. -/
theorem resolveRoot_isResolved (r : Resolver) (root : Root) :
    (∀ tree, (r.resolveRoot? root = some (.ok tree) ∨ ∃ path, r.resolveFile? path = some (.ok tree)) →
      IsResolved tree.statements ∧ ∀ r' : Resolver, r'.hasDeadline = true →
        ∃ again, r'.resolveRoot? tree.toRoot = some (.ok again) ∧
          again.mainMenu = tree.mainMenu ∧ again.statements = tree.statements) ∧
    (IsResolved root.statements → ∀ read, ((r.reading read).rootSession root).run.run .start =
        (.ok ⟨root.file, root.mainMenu, root.statements, r.givenSources root⟩, ⟨r.givenSources root, [], 0⟩) ∧
      (r.reading read).resolveRoot? root = if r.hasDeadline = true ∧ root.file ≠ .last then
        some (.ok ⟨root.file, root.mainMenu, root.statements, r.givenSources root⟩) else none) := by
  constructor
  · intro tree htree
    have hentry : ∃ entry, r.ending? (r.session entry) = some (.ok tree) :=
      htree.elim (fun h => ⟨.tree root, h⟩) fun ⟨path, h⟩ => ⟨.file path, h⟩
    obtain ⟨entry, hending⟩ := hentry
    have hresolved : IsResolved tree.statements := isResolved_of_run_session (ending?_eq_some_iff.mp hending).2.2
    refine ⟨hresolved, fun r' hdeadline => ?_⟩
    refine ⟨⟨tree.root, tree.mainMenu, tree.statements, r'.givenSources tree.toRoot⟩, ?_, rfl, rfl⟩
    rw [resolveRoot?_of_isResolved r' tree.toRoot hresolved]
    exact if_pos ⟨hdeadline, root_ne_last hending⟩
  · intro hresolved read
    exact ⟨run_rootSession_of_isResolved (r.reading read) root hresolved,
      resolveRoot?_of_isResolved (r.reading read) root hresolved⟩

/-- A session over a file that includes another one inside a conditional block. -/
def parted : Resolver where
  loader := MemoryTree.loader
    ⟨[(⟨"/part"⟩, "config A\nif A\nosource \"none\"\nsource \"last\"\nendif\n"), (⟨"/last"⟩, "config B\n")]⟩
  expandPath := id
  base := ⟨"/"⟩

/-- A menu with some statements, built by hand. -/
def menuRoot (body : List Stmt) : Root :=
  ⟨.root, none, none, [.menu ⟨default, [], default⟩ body]⟩

/-- A menu that holds an inclusion. -/
def openRoot : Root :=
  menuRoot [.source ⟨.plain, ⟨"part", "\"part\"", default⟩, default⟩]

theorem parted_isResolved : ∃ tree, parted.resolveRoot? openRoot = some (.ok tree) ∧ IsResolved tree.statements ∧
    (∃ again, parted.resolveRoot? tree.toRoot = some (.ok again) ∧ again.mainMenu = tree.mainMenu ∧
      again.statements = tree.statements) ∧
    IsResolved (menuRoot []).statements ∧
    (parted.reading fun _ => .error ⟨.other, "broken"⟩).resolveRoot? (menuRoot []) =
      some (.ok ⟨.root, none, (menuRoot []).statements, parted.givenSources (menuRoot [])⟩) := by
  obtain ⟨tree, htree⟩ := exists_some_ok_of_any (x := parted.resolveRoot? openRoot) (by decide +kernel)
  obtain ⟨hresolved, hagain⟩ := (resolveRoot_isResolved parted openRoot).1 tree (.inl htree)
  have hempty : IsResolved (menuRoot []).statements := by decide +kernel
  obtain ⟨-, hmenu⟩ := (resolveRoot_isResolved parted (menuRoot [])).2 hempty fun _ => .error ⟨.other, "broken"⟩
  exact ⟨tree, htree, hresolved, hagain parted rfl, hempty, hmenu.trans (if_pos ⟨rfl, by decide⟩)⟩

/-- A clock that shows 64-bit seconds, and the longest time limit. -/
def overdue : Resolver :=
  { parted with
    limits := { timeLimit := some 18446744073709551615999 }
    surroundings := { shows := (· < 9223372036854775808000) } }

/-- A tree in which there is nothing to resolve stops the program if it has the last number, and any tree does if the
clock cannot show the end of the time limit. -/
theorem resolved_stops : IsResolved [] ∧ parted.resolveRoot? ⟨.last, none, none, []⟩ = none ∧
    overdue.resolveRoot? ⟨.root, none, none, []⟩ = none := by
  refine ⟨.nil, ?_, ?_⟩ <;> decide +kernel

end Resolver

end KconfigLang
