import KconfigLang.Proofs.Files.SourceMap
import KconfigLang.Proofs.Grammar.Acceptance
import KconfigLang.Proofs.Inclusion.Runs
import KconfigLang.Proofs.Tree.Erasure

/-!
# What sessions yield

A step of a session is described by what it may yield and how it may fail, under an invariant of what the
session remembers.

- `Yields`: one step; one rule for each way to build a step.
- `Stmt.ReplacesAll`: a block in which every inclusion is replaced.
- `yields_spliceAll`: splicing yields such a block.
- `Resolver.Loaded`: the trees that sessions remember.
- `Resolver.yields_load` and `Resolver.yields_locate`: files and the targets of inclusions.
- `Resolver.resolveFile_outcome`: whole configurations.
-/

namespace KconfigLang

theorem exists_ok_of_isOk {α ε : Type} {x : Except ε α} (h : x.isOk = true) : ∃ a, x = .ok a := by
  cases x with
  | ok a => exact ⟨a, rfl⟩
  | error e => exact nomatch h

theorem exists_some_ok_of_any {α ε : Type} {x : Option (Except ε α)} (h : x.any Except.isOk = true) :
    ∃ a, x = some (.ok a) := by
  cases x with
  | none => exact nomatch h
  | some result =>
    obtain ⟨a, rfl⟩ := exists_ok_of_isOk h
    exact ⟨a, rfl⟩

/-! ## Steps of sessions -/

/-- From a session with the invariant `I` a step yields a result in `Q` and keeps the invariant, or it fails
with an error in `E`. -/
def Yields {α : Type} (I : Session → Prop) (step : SessionM α) (Q : α → Prop)
    (E : ResolveError → Prop) : Prop :=
  ∀ s, I s → match step.run.run s with
    | (.ok a, s') => Q a ∧ I s'
    | (.error e, _) => E e

section Rules

variable {α β : Type} {I : Session → Prop} {step : SessionM α} {Q Q' : α → Prop} {R : β → Prop}
  {E : ResolveError → Prop}

theorem yields_pure {a : α} (h : Q a) : Yields I (pure a : SessionM α) Q E :=
  fun _ hs => ⟨h, hs⟩

theorem yields_throw {e : ResolveError} (h : E e) : Yields I (throw e : SessionM α) Q E :=
  fun _ _ => h

theorem yields_get : Yields I (get : SessionM Session) I E :=
  fun _ hs => ⟨hs, hs⟩

theorem yields_modify {f : Session → Session} (h : ∀ s, I s → I (f s)) :
    Yields I (modify f : SessionM Unit) (fun _ => True) E :=
  fun s hs => ⟨trivial, h s hs⟩

theorem Yields.bind {f : α → SessionM β} (h : Yields I step Q E)
    (hf : ∀ a, Q a → Yields I (f a) R E) : Yields I (step >>= f) R E := by
  intro s hs
  have hstep := h s hs
  rw [run_bind]
  generalize step.run.run s = outcome at hstep ⊢
  rcases outcome with ⟨e | a, s'⟩
  · exact hstep
  · exact hf a hstep.1 s' hstep.2

theorem Yields.mono (h : Yields I step Q E) (hQ : ∀ a, Q a → Q' a) : Yields I step Q' E := by
  intro s hs
  have hstep := h s hs
  generalize step.run.run s = outcome at hstep ⊢
  rcases outcome with ⟨e | a, s'⟩
  · exact hstep
  · exact ⟨hQ a hstep.1, hstep.2⟩

/-- What a step comes to, if it does not fail, is what it yields. -/
theorem Yields.of_run (h : Yields I step Q E) {s : Session} (hs : I s) {a : α}
    (hrun : (step.run.run s).1 = .ok a) : Q a := by
  have hstep := h s hs
  generalize step.run.run s = outcome at hstep hrun
  obtain ⟨result, s'⟩ := outcome
  obtain rfl : result = .ok a := hrun
  exact hstep.1

end Rules

/-! ## Splicing -/

namespace Stmt

variable (Q : Source → List Stmt → Prop)

mutual

/-- What a statement becomes if each inclusion becomes statements that `Q` relates to it. -/
def Replaces : Stmt → List Stmt → Prop
  | source s, out => Q s out
  | menu head body, out => ∃ inner, ReplacesAll body inner ∧ out = [menu head inner]
  | ifBlock condition body span, out =>
    ∃ inner, ReplacesAll body inner ∧ out = [ifBlock condition inner span]
  | config c, out => out = [config c]
  | menuconfig c, out => out = [menuconfig c]
  | choice c, out => out = [choice c]
  | comment c, out => out = [comment c]

/-- What the statements of a block become. -/
def ReplacesAll : List Stmt → List Stmt → Prop
  | [], out => out = []
  | s :: ss, out => ∃ first more, Replaces s first ∧ ReplacesAll ss more ∧ out = first ++ more

end

variable {Q}

mutual

theorem Replaces.forall_source : ∀ {s : Stmt} {out : List Stmt}, Replaces Q s out →
    ∀ src, .source src ∈ walk s → ∃ replaced, Q src replaced
  | source _, out, h, src, hsrc => by
    obtain rfl := source.inj (List.mem_singleton.mp hsrc)
    exact ⟨out, h⟩
  | menu _ _, _, ⟨_, hinner, _⟩, src, hsrc =>
    hinner.forall_source src ((List.mem_cons.mp hsrc).resolve_left nofun)
  | ifBlock _ _ _, _, ⟨_, hinner, _⟩, src, hsrc =>
    hinner.forall_source src ((List.mem_cons.mp hsrc).resolve_left nofun)
  | config _, _, _, _, hsrc | menuconfig _, _, _, _, hsrc | choice _, _, _, _, hsrc
  | comment _, _, _, _, hsrc => nomatch List.mem_singleton.mp hsrc

/-- Every inclusion of a block is replaced, at any nesting. -/
theorem ReplacesAll.forall_source : ∀ {block out : List Stmt}, ReplacesAll Q block out →
    ∀ src, .source src ∈ walkAll block → ∃ replaced, Q src replaced
  | [], _, _, _, hsrc => absurd hsrc List.not_mem_nil
  | _ :: _, _, ⟨_, _, hfirst, hmore, _⟩, src, hsrc =>
    (List.mem_append.mp hsrc).elim (hfirst.forall_source src) (hmore.forall_source src)

end

variable {Q' : Source → List Stmt → Prop}

mutual

theorem Replaces.imp (h : ∀ src replaced, Q src replaced → Q' src replaced) : ∀ {s : Stmt} {out : List Stmt},
    Replaces Q s out → Replaces Q' s out
  | source _, _, hout => h _ _ hout
  | menu _ _, _, ⟨inner, hinner, hout⟩ => ⟨inner, hinner.imp h, hout⟩
  | ifBlock _ _ _, _, ⟨inner, hinner, hout⟩ => ⟨inner, hinner.imp h, hout⟩
  | config _, _, hout | menuconfig _, _, hout | choice _, _, hout | comment _, _, hout => hout

theorem ReplacesAll.imp (h : ∀ src replaced, Q src replaced → Q' src replaced) : ∀ {block out : List Stmt},
    ReplacesAll Q block out → ReplacesAll Q' block out
  | [], _, hout => hout
  | _ :: _, _, ⟨first, more, hfirst, hmore, hout⟩ => ⟨first, more, hfirst.imp h, hmore.imp h, hout⟩

end

end Stmt

section Splice

variable {I : Session → Prop} {Q : Source → List Stmt → Prop} {E : ResolveError → Prop}
  {included : Source → SessionM (List Stmt)} {emptied : Choice → SessionM (List Stmt)}

mutual

theorem yields_splice : ∀ s : Stmt,
    (∀ src, .source src ∈ Stmt.walk s → Yields I (included src) (Q src) E) →
    (∀ c, .choice c ∈ Stmt.walk s → c.members ≠ []) →
    Yields I (Stmt.splice included emptied s) (Stmt.Replaces Q s) E
  | .source src, hsource, _ => hsource src List.mem_cons_self
  | .menu head body, hsource, hchoice =>
    (yields_spliceAll body (fun src h => hsource src (List.mem_cons_of_mem _ h))
      fun c h => hchoice c (List.mem_cons_of_mem _ h)).bind fun inner hinner =>
        yields_pure ⟨inner, hinner, rfl⟩
  | .ifBlock condition body span, hsource, hchoice =>
    (yields_spliceAll body (fun src h => hsource src (List.mem_cons_of_mem _ h))
      fun c h => hchoice c (List.mem_cons_of_mem _ h)).bind fun inner hinner =>
        yields_pure ⟨inner, hinner, rfl⟩
  | .choice c, _, hchoice => by
    rw [Stmt.splice, if_neg (by simpa using hchoice c List.mem_cons_self)]
    exact yields_pure rfl
  | .config _, _, _ => yields_pure rfl
  | .menuconfig _, _, _ => yields_pure rfl
  | .comment _, _, _ => yields_pure rfl

/-- Splicing yields a block in which every inclusion is replaced by what it yields. -/
theorem yields_spliceAll : ∀ block : List Stmt,
    (∀ src, .source src ∈ Stmt.walkAll block → Yields I (included src) (Q src) E) →
    (∀ c, .choice c ∈ Stmt.walkAll block → c.members ≠ []) →
    Yields I (Stmt.spliceAll included emptied block) (Stmt.ReplacesAll Q block) E
  | [], _, _ => yields_pure rfl
  | s :: ss, hsource, hchoice =>
    (yields_splice s (fun src h => hsource src (List.mem_append_left _ h))
      fun c h => hchoice c (List.mem_append_left _ h)).bind fun first hfirst =>
        (yields_spliceAll ss (fun src h => hsource src (List.mem_append_right _ h))
          fun c h => hchoice c (List.mem_append_right _ h)).bind fun more hmore =>
            yields_pure ⟨first, more, hfirst, hmore, rfl⟩

end

end Splice

/-! ## Files and targets -/

namespace Resolver

/-- The trees of a file: its text, read as a file of some number. -/
def Loaded (r : Resolver) (path : Path) (root : Root) : Prop :=
  ∃ text id tree, r.loader.read path = .ok text ∧ parse id text = .ok tree ∧
    root = { tree with path := some path }

/-- A session remembers trees of files only. -/
def Remembers (r : Resolver) (s : Session) : Prop :=
  ∀ entry ∈ s.parsed, r.Loaded entry.1 entry.2

variable {r : Resolver} {E : ResolveError → Prop}

/-- The target of an inclusion does not depend on where the inclusion stands. -/
theorem target_congr (stack : List Path) {source source' : Source} (h : source.erase = source'.erase) :
    r.target stack source = r.target stack source' := by
  obtain ⟨hkind, hpath, -⟩ := Source.mk.inj h
  obtain ⟨hvalue, -⟩ := StringNode.mk.inj hpath
  unfold target
  rw [hkind, hvalue]

theorem remembers_start : r.Remembers Session.start :=
  List.forall_mem_nil _

/-- Loading yields a tree of the file, whether it is remembered or not. -/
theorem yields_load {path : Path} (hread : ∀ e, r.loader.read path = .error e → E (.load (.io path e)))
    (hparse : ∀ text id e, r.loader.read path = .ok text → parse id text = .error e →
      E (.load (.text path e))) :
    Yields r.Remembers (r.load path) (r.Loaded path) E := by
  intro s hs
  cases hlookup : s.parsed.lookup path with
  | some root =>
    -- What a session remembers for a path is a tree of that file, by the invariant.
    rw [run_load_of_lookup hlookup]
    exact ⟨hs (path, root) (mem_of_lookup hlookup), hs⟩
  | none =>
    rw [run_load_of_read hlookup]
    cases htext : r.loader.read path with
    | error e => exact hread e htext
    | ok text =>
      simp only
      cases htree : parse ⟨s.sources.next⟩ text with
      | error e => exact hparse text _ e htext htree
      | ok tree =>
        have hloaded : r.Loaded path { tree with path := some path } :=
          ⟨text, _, tree, htext, htree, rfl⟩
        refine ⟨hloaded, ?_⟩
        show ∀ entry ∈ (if r.limits.cache then _ else _), _
        split
        · exact List.forall_mem_cons.mpr ⟨hloaded, hs⟩
        · exact hs

/-- The target of an inclusion is found, or the session fails in one of two ways. -/
theorem yields_locate {label : Path} {stack : List Path} {source : Source}
    (hcancel : ∀ n, r.surroundings.cancelled n = true → E .cancelled)
    (htime : ∀ limit, r.limits.timeLimit = some limit → E (.timedOut limit))
    (hcycle : ∀ path, r.loader.canonicalize (r.target stack source) = .ok path → path ∈ stack →
      E (.cycle (path :: stack).reverse (referrer label stack) source.span))
    (hmissing : ∀ e, r.loader.canonicalize (r.target stack source) = .error e →
      ¬ (source.kind.isOptional = true ∧ e.kind = .notFound) →
      E (.noTarget (r.target stack source) (referrer label stack) source.span e)) :
    Yields r.Remembers (r.locate label stack source) (r.Locates stack source) E := by
  intro s hs
  rw [run_locate]
  cases hstop : r.stop? s.expansions with
  | some e =>
    rcases cases_of_stop? hstop with ⟨hcancelled, rfl⟩ | ⟨limit, hlimit, rfl⟩
    · exact hcancel _ hcancelled
    · exact htime limit hlimit
  | none =>
    simp only
    rcases r.lead_cases label stack source with ⟨target, hlead, hlocates⟩ | ⟨path, hlead, htarget, hmem⟩ |
      ⟨e, hlead, htarget, hskip⟩
    · rw [hlead]
      exact ⟨hlocates, hs⟩
    · rw [hlead]
      exact hcycle path htarget hmem
    · rw [hlead]
      exact hmissing e htarget hskip

/-! ## Inclusions -/

/-- Splicing the tree of a file replaces its inclusions. -/
theorem Loaded.yields_spliceAll {path : Path} {root : Root} (h : r.Loaded path root)
    {I : Session → Prop} {Q : Source → List Stmt → Prop} {included : Source → SessionM (List Stmt)}
    {emptied : Choice → SessionM (List Stmt)}
    (hsource : ∀ source, .source source ∈ Stmt.walkAll root.statements →
      Yields I (included source) (Q source) E) :
    Yields I (Stmt.spliceAll included emptied root.statements) (Stmt.ReplacesAll Q root.statements) E := by
  obtain ⟨text, id, tree, -, htree, rfl⟩ := h
  exact KconfigLang.yields_spliceAll tree.statements hsource (members_ne_nil_of_parse htree)

section IncludeSource

variable {label : Path} {stack : List Path} {source : Source} {Q : List Stmt → Prop}

/-- Without room for another file an inclusion yields nothing or is nested too deeply. -/
theorem yields_includeSource_zero
    (hlocate : Yields r.Remembers (r.locate label stack source) (r.Locates stack source) E)
    (hnone : r.Locates stack source none → Q [])
    (hdeep : ∀ path, r.Locates stack source (some path) →
      E (.tooDeep r.limits.maxDepth path (referrer label stack) source.span)) :
    Yields r.Remembers (r.includeSource label 0 stack source) Q E := by
  refine hlocate.bind fun target htarget => ?_
  cases target with
  | none => exact yields_pure (hnone htarget)
  | some path => exact yields_throw (hdeep path htarget)

/-- With room for another file an inclusion yields nothing or what the block of its file becomes. -/
theorem yields_includeSource_succ {room : Nat} {R : Path → Source → List Stmt → Prop}
    (hlocate : Yields r.Remembers (r.locate label stack source) (r.Locates stack source) E)
    (hnone : r.Locates stack source none → Q [])
    (hload : ∀ path, r.Locates stack source (some path) →
      Yields r.Remembers (r.load path) (r.Loaded path) E)
    (hinner : ∀ path root, r.Locates stack source (some path) → r.Loaded path root →
      ∀ s, .source s ∈ Stmt.walkAll root.statements →
        Yields r.Remembers (r.includeSource label room (path :: stack) s) (R path s) E)
    (hblock : ∀ path root block, r.Locates stack source (some path) → r.Loaded path root →
      Stmt.ReplacesAll (R path) root.statements block → Q block) :
    Yields r.Remembers (r.includeSource label (room + 1) stack source) Q E := by
  refine hlocate.bind fun target htarget => ?_
  cases target with
  | none => exact yields_pure (hnone htarget)
  | some path =>
    refine (hload path htarget).bind fun root hroot => ?_
    exact (hroot.yields_spliceAll (hinner path root htarget hroot)).mono fun block =>
      hblock path root block htarget hroot

end IncludeSource

/-! ## Whole configurations -/

/-- The outcome of a session is what loading and expanding the root file yield. -/
theorem resolveFile_outcome {path file : Path} {Q : Root → List Stmt → Prop}
    (hfile : r.loader.canonicalize path = .ok file)
    (hload : Yields r.Remembers (r.load file) (r.Loaded file) E)
    (hblock : ∀ root, r.Loaded file root →
      Yields r.Remembers (r.expandBlock path [file] root.statements) (Q root) E) :
    match r.resolveFile path with
    | .ok resolved => ∃ root, r.Loaded file root ∧ resolved.mainMenu = root.mainMenu ∧
        Q root resolved.statements
    | .error e => E e := by
  have hsession : Yields r.Remembers (r.fileSession path) (fun resolved => ∃ root,
      r.Loaded file root ∧ resolved.mainMenu = root.mainMenu ∧ Q root resolved.statements) E := by
    unfold fileSession
    rw [hfile]
    refine hload.bind fun root hroot => (hblock root hroot).bind fun block hq => ?_
    exact yields_get.bind fun s _ => yields_pure ⟨root, hroot, rfl, hq⟩
  have houtcome := hsession Session.start remembers_start
  unfold resolveFile
  generalize (r.fileSession path).run.run Session.start = outcome at houtcome ⊢
  obtain ⟨e | resolved, s⟩ := outcome
  · exact houtcome
  · exact houtcome.1

end Resolver

end KconfigLang
