import KconfigLang.Files.DiskTree
import KconfigLang.Proofs.Grammar.Inclusions
import KconfigLang.Proofs.Inclusion.Cycle
import KconfigLang.Proofs.Inclusion.Stack

/-!
# Where sessions fail

A session fails in a step of it, and what that step finds wrong is what the error says. The files that are asked may
answer differently at every step, and the statements that are left always stand in the files of the stack.

- `Resolver.Follows`: what comes of an inclusion, one rule for each outcome.
- `Runs`: the stages of a session whose resolver may be another one at each step; `Fails`: the errors.
- `InFile`: a statement stands in a file; `Stage.InFiles`: so do all statements that are left.
- `inFiles_next`: a step keeps it so; `inFiles_run`: every stage of every session is so.
- `failsAt_of_fails`: the ways in which a session may fail.
- `fails_unread_iff`: what a session reports of files that are missing or cannot be read.
-/

namespace KconfigLang

/-- The failure of a computation that fails. -/
def failure? {α ε : Type} : Except ε α → Option ε
  | .ok _ => none
  | .error e => some e

theorem eq_error_of_failure? {α ε : Type} {x : Except ε α} {e : ε} (h : failure? x = some e) : x = .error e := by
  cases x with
  | ok a => cases h
  | error e' => exact congrArg Except.error (Option.some.inj h)

/-! ## What comes of an inclusion -/

/-- The session after an inclusion whose path was expanded. -/
def Session.counted (s : Session) : Session :=
  { s with expansions := s.expansions + 1 }

namespace Resolver

/-- What comes of an inclusion. -/
inductive Follows (r : Resolver) (label : Path) (s : Session) (p : Point) (source : Source) (rest : List Stmt) :
    Stage → Prop where
  /-- The session was cancelled or is out of time. -/
  | stopped {e : ResolveError} (hstop : r.stop? s.expansions = some e) :
      Follows r label s p source rest (.ended s (.error e))
  | missing {e : IoError} (hstop : r.stop? s.expansions = none)
      (htarget : r.loader.canonicalize (r.target p.stack source) = .error e)
      (hneeded : ¬ (source.kind.isOptional = true ∧ e.kind = .notFound)) :
      Follows r label s p source rest (.ended s.counted
        (.error (.noTarget (r.target p.stack source) (referrer label p.stack) source.span e)))
  | skipped {e : IoError} (hstop : r.stop? s.expansions = none)
      (htarget : r.loader.canonicalize (r.target p.stack source) = .error e)
      (hskip : source.kind.isOptional = true ∧ e.kind = .notFound) :
      Follows r label s p source rest (.running s.counted (p.yield [] rest))
  | cycle {path : Path} (hstop : r.stop? s.expansions = none)
      (htarget : r.loader.canonicalize (r.target p.stack source) = .ok path) (hmem : path ∈ p.stack) :
      Follows r label s p source rest (.ended s.counted
        (.error (.cycle (path :: p.stack).reverse (referrer label p.stack) source.span)))
  | tooDeep {path : Path} (hstop : r.stop? s.expansions = none)
      (htarget : r.loader.canonicalize (r.target p.stack source) = .ok path) (hmem : path ∉ p.stack)
      (hfull : r.limits.maxDepth ≤ p.stack.length) :
      Follows r label s p source rest (.ended s.counted
        (.error (.tooDeep r.limits.maxDepth path (referrer label p.stack) source.span)))
  /-- The file gives no tree. -/
  | failed {path : Path} {e : ResolveError} {s' : Session} (hstop : r.stop? s.expansions = none)
      (htarget : r.loader.canonicalize (r.target p.stack source) = .ok path) (hmem : path ∉ p.stack)
      (hroom : p.stack.length < r.limits.maxDepth) (hload : (r.load path).run.run s.counted = (.error e, s')) :
      Follows r label s p source rest (.ended s' (.error e))
  | opened {path : Path} {root : Root} {s' : Session} (hstop : r.stop? s.expansions = none)
      (htarget : r.loader.canonicalize (r.target p.stack source) = .ok path) (hmem : path ∉ p.stack)
      (hroom : p.stack.length < r.limits.maxDepth) (hload : (r.load path).run.run s.counted = (.ok root, s')) :
      Follows r label s p source rest (.running s' (p.push path rest root.statements))

variable {r : Resolver} {label : Path} {s s' : Session} {p : Point} {source : Source} {rest : List Stmt}

theorem follows_follow (r : Resolver) (label : Path) (s : Session) (p : Point) (source : Source)
    (rest : List Stmt) : r.Follows label s p source rest (r.follow label s p source rest) := by
  unfold follow
  rw [run_locate]
  cases hstop : r.stop? s.expansions with
  | some e => exact .stopped hstop
  | none =>
    simp only
    unfold lead
    cases htarget : r.loader.canonicalize (r.target p.stack source) with
    | error e =>
      by_cases hskip : source.kind.isOptional = true ∧ e.kind = .notFound
      · simp only [if_pos hskip]
        exact .skipped hstop htarget hskip
      · simp only [if_neg hskip]
        exact .missing hstop htarget hskip
    | ok path =>
      by_cases hmem : path ∈ p.stack
      · simp only [if_pos hmem]
        exact .cycle hstop htarget hmem
      · simp only [if_neg hmem, Stage.andThen]
        by_cases hfull : r.limits.maxDepth ≤ p.stack.length
        · rw [if_pos hfull]
          exact .tooDeep hstop htarget hmem hfull
        · rw [if_neg hfull]
          have hroom := Nat.lt_of_not_le hfull
          show r.Follows label s p source rest (.andThen ((r.load path).run.run s.counted) fun s tree =>
            .running s (p.push path rest tree.statements))
          rcases hload : (r.load path).run.run s.counted with ⟨e | root, s'⟩
          · exact .failed hstop htarget hmem hroom hload
          · exact .opened hstop htarget hmem hroom hload

/-- A file gives a tree of it, which is remembered or read. -/
theorem loaded_of_run {path : Path} {root : Root} (hrun : (r.load path).run.run s = (.ok root, s')) :
    ((path, root) ∈ s.parsed ∨ r.Loaded path root) ∧
      ∀ entry ∈ s'.parsed, entry ∈ s.parsed ∨ r.Loaded entry.1 entry.2 := by
  cases hlookup : s.parsed.lookup path with
  | some known =>
    rw [run_load_of_lookup hlookup] at hrun
    obtain ⟨hroot, rfl⟩ := Prod.mk.inj hrun
    obtain rfl := Except.ok.inj hroot
    exact ⟨.inl (mem_of_lookup hlookup), fun _ hentry => .inl hentry⟩
  | none =>
    rw [run_load_of_read hlookup] at hrun
    cases htext : r.loader.read path with
    | error e =>
      rw [htext] at hrun
      cases hrun
    | ok text =>
      simp only [htext] at hrun
      cases htree : parse ⟨s.sources.next⟩ text with
      | error e =>
        rw [htree] at hrun
        cases hrun
      | ok tree =>
        simp only [htree] at hrun
        obtain ⟨hroot, rfl⟩ := Prod.mk.inj hrun
        obtain rfl := Except.ok.inj hroot
        have hloaded : r.Loaded path { tree with path := some path } := ⟨text, _, tree, htext, htree, rfl⟩
        refine ⟨.inr hloaded, fun entry hentry => ?_⟩
        simp only at hentry
        split at hentry
        · exact (List.mem_cons.mp hentry).elim (fun heq => .inr (heq ▸ hloaded)) .inl
        · exact .inl hentry

/-- A file gives no tree if it is not remembered and cannot be read, or if its text is wrong. -/
theorem run_load_eq_error_iff {path : Path} {e : ResolveError} :
    ((r.load path).run.run s).1 = .error e ↔ s.parsed.lookup path = none ∧
      ((∃ cause, r.loader.read path = .error cause ∧ e = .load (.io path cause)) ∨
        ∃ text cause, r.loader.read path = .ok text ∧ parse ⟨s.sources.next⟩ text = .error cause ∧
          e = .load (.text path cause)) := by
  cases hlookup : s.parsed.lookup path with
  | some known =>
    rw [run_load_of_lookup hlookup]
    exact iff_of_false nofun fun h => nomatch h.1
  | none =>
    rw [run_load_of_read hlookup]
    cases htext : r.loader.read path with
    | error cause => simp [eq_comm]
    | ok text =>
      cases htree : parse ⟨s.sources.next⟩ text with
      | error cause => simp [htree, eq_comm]
      | ok tree => simp [htree]

theorem run_load_eq_io_iff {path file : Path} {e : IoError} :
    ((r.load path).run.run s).1 = .error (.load (.io file e)) ↔
      s.parsed.lookup path = none ∧ r.loader.read path = .error e ∧ file = path := by
  rw [run_load_eq_error_iff]
  refine and_congr_right fun _ => ⟨?_, ?_⟩
  · rintro (⟨cause, hread, heq⟩ | ⟨text, cause, -, -, heq⟩)
    · cases heq
      exact ⟨hread, rfl⟩
    · cases heq
  · rintro ⟨hread, rfl⟩
    exact .inl ⟨e, hread, rfl⟩

theorem exists_load_of_run {path : Path} {e : ResolveError} (h : ((r.load path).run.run s).1 = .error e) :
    ∃ cause, e = .load cause := by
  obtain ⟨-, ⟨cause, -, rfl⟩ | ⟨_, cause, -, -, rfl⟩⟩ := run_load_eq_error_iff.mp h
  · exact ⟨_, rfl⟩
  · exact ⟨_, rfl⟩

end Resolver

/-! ## Runs -/

/-- The stages of a session. The resolver may be another one of `rs` at every step, so that files may change. -/
inductive Runs (rs : Resolver → Prop) (entry : Entry) : Stage → Prop where
  | begin {r : Resolver} (hr : rs r) : Runs rs entry (r.begin entry)
  | next {r : Resolver} {stage : Stage} (hr : rs r) (h : Runs rs entry stage) :
      Runs rs entry (r.next entry.label stage)

/-- A session may end with an error. -/
def Fails (rs : Resolver → Prop) (entry : Entry) (e : ResolveError) : Prop :=
  ∃ s, Runs rs entry (.ended s (.error e))

section OneResolver

variable {r : Resolver} {entry : Entry}

theorem Runs.iterate (r : Resolver) (entry : Entry) (n : Nat) :
    Runs (· = r) entry ((r.next entry.label)^[n] (r.begin entry)) := by
  induction n with
  | zero => exact .begin rfl
  | succ n ih =>
    rw [Function.iterate_succ_apply']
    exact .next rfl ih

theorem Runs.outcome {stage : Stage} (h : Runs (· = r) entry stage) :
    r.outcomeFrom entry.label stage = (r.session entry).run.run .start := by
  induction h with
  | begin hr =>
    subst hr
    exact Resolver.outcomeFrom_begin _ entry
  | next hr _ ih =>
    subst hr
    rw [Resolver.outcomeFrom_next, ih]

/-- With one resolver a session ends with what it comes to. -/
theorem runs_ended_iff {s : Session} {result : Except ResolveError ResolvedTree} :
    Runs (· = r) entry (.ended s result) ↔ (r.session entry).run.run .start = (result, s) := by
  constructor
  · intro h
    exact h.outcome.symm
  · intro hsession
    have hleads : Leads (Steps r.limits.maxDepth entry.label) Stage.IsEnded (r.begin entry) :=
      leads_isEnded_of_starts ⟨r, rfl, rfl⟩
    obtain ⟨n, hended⟩ := hleads.exists_iterate (f := r.next entry.label) fun b => ⟨r, rfl, rfl⟩
    have hruns := Runs.iterate r entry n
    cases hstage : (r.next entry.label)^[n] (r.begin entry) with
    | running s p =>
      rw [hstage] at hended
      exact hended.elim
    | ended s' result' =>
      rw [hstage] at hruns
      obtain ⟨rfl, rfl⟩ := Prod.mk.inj (hruns.outcome.trans hsession)
      exact hruns

theorem fails_iff {e : ResolveError} : Fails (· = r) entry e ↔ ((r.session entry).run.run .start).1 = .error e := by
  constructor
  · rintro ⟨s, hruns⟩
    rw [runs_ended_iff.mp hruns]
  · intro hsession
    exact ⟨((r.session entry).run.run .start).2, runs_ended_iff.mpr (Prod.ext hsession rfl)⟩

end OneResolver

/-! ## Where the statements stand that are left -/

section InFiles

variable (rs : Resolver → Prop) (entry : Entry)

/-- A tree of a file that was found. -/
def Opened (file : Path) (root : Root) : Prop :=
  (∃ r path, rs r ∧ r.loader.canonicalize path = .ok file) ∧ ∃ r, rs r ∧ r.Loaded file root

/-- A statement stands in the innermost file of a stack: in a tree of that file, or in the tree with which the session
began. -/
def InFile (stack : List Path) (st : Stmt) : Prop :=
  (∃ file root, stack.head? = some file ∧ Opened rs file root ∧ st ∈ Stmt.walkAll root.statements) ∨
    ∃ r root, rs r ∧ entry = .tree root ∧ stack = (root.path.map r.canonicalOrSelf).toList ∧
      st ∈ Stmt.walkAll root.statements

/-- The statements of a block stand in the innermost file of a stack. -/
def BlockIn (stack : List Path) (block : List Stmt) : Prop :=
  ∀ st ∈ Stmt.walkAll block, InFile rs entry stack st

/-- So do those that come behind the blocks that are being expanded, where each inclusion is left with its file. -/
def FramesIn : List Path → List Frame → Prop
  | _, [] => True
  | stack, .menu _ _ rest :: frames | stack, .ifBlock _ _ _ rest :: frames =>
    BlockIn rs entry stack rest ∧ FramesIn stack frames
  | stack, .file _ rest :: frames => BlockIn rs entry stack.tail rest ∧ FramesIn stack.tail frames

/-- All statements that are left stand in the files of their places, and what is remembered are trees of files. -/
def Stage.InFiles : Stage → Prop
  | .running s p => BlockIn rs entry p.stack p.rest ∧ FramesIn rs entry p.stack p.frames ∧
    ∀ known ∈ s.parsed, ∃ r, rs r ∧ r.Loaded known.1 known.2
  | .ended _ _ => True

variable {rs : Resolver → Prop} {entry : Entry} {stack : List Path} {st : Stmt} {block : List Stmt}

theorem BlockIn.tail (h : BlockIn rs entry stack (st :: block)) : BlockIn rs entry stack block :=
  fun st hst => h st (List.mem_append_right _ hst)

theorem BlockIn.head (h : BlockIn rs entry stack (st :: block)) :
    ∀ inner ∈ Stmt.walk st, InFile rs entry stack inner :=
  fun inner hinner => h inner (List.mem_append_left _ hinner)

/-- The block of a file that is pushed stands in it. -/
theorem Opened.blockIn {file : Path} {root : Root} (h : Opened rs file root) (stack : List Path) :
    BlockIn rs entry (file :: stack) root.statements := by
  intro st hst
  exact .inl ⟨file, root, rfl, h, hst⟩

variable {r : Resolver} {s s' : Session} {p : Point}

/-- Leaving a block leads back to the file in which its statement stands. -/
theorem inFiles_leave (h : (Stage.running s p).InFiles rs entry) : (Stage.leave s p).InFiles rs entry := by
  obtain ⟨root, stack, frames, before, rest⟩ := p
  obtain ⟨-, hframes, hparsed⟩ := h
  rcases frames with _ | ⟨_ | _ | _, frames⟩
  · trivial
  · exact ⟨hframes.1, hframes.2, hparsed⟩
  · exact ⟨hframes.1, hframes.2, hparsed⟩
  · exact ⟨hframes.1, hframes.2, hparsed⟩

/-- Following an inclusion pushes a tree of its file, which is read or remembered. -/
theorem inFiles_follow {source : Source} {rest : List Stmt} (hr : rs r)
    (h : (Stage.running s { p with rest := .source source :: rest }).InFiles rs entry) :
    (r.follow entry.label s p source rest).InFiles rs entry := by
  obtain ⟨hblock, hframes, hparsed⟩ := h
  have hfollows := r.follows_follow entry.label s p source rest
  generalize r.follow entry.label s p source rest = stage at hfollows
  cases hfollows with
  | stopped | missing | cycle | tooDeep | failed => trivial
  | skipped => exact ⟨hblock.tail, hframes, hparsed⟩
  | @opened path root s' hstop htarget hmem hroom hload =>
    obtain ⟨hroot, hparsed'⟩ := Resolver.loaded_of_run hload
    have hopened : Opened rs path root := by
      refine ⟨⟨r, _, hr, htarget⟩, ?_⟩
      rcases hroot with hknown | hloaded
      · exact hparsed (path, root) hknown
      · exact ⟨r, hr, hloaded⟩
    refine ⟨hopened.blockIn p.stack, ⟨hblock.tail, hframes⟩, ?_⟩
    intro known hknown
    rcases hparsed' known hknown with hknown | hloaded
    · exact hparsed known hknown
    · exact ⟨r, hr, hloaded⟩

/-- A step keeps all statements that are left in the files of their places. -/
theorem inFiles_next (hr : rs r) {stage : Stage} (h : stage.InFiles rs entry) :
    (r.next entry.label stage).InFiles rs entry := by
  cases stage with
  | ended s result => trivial
  | running s p =>
    obtain ⟨root, stack, frames, before, rest⟩ := p
    match rest with
    | [] => exact inFiles_leave h
    | .source source :: rest => exact inFiles_follow hr h
    | .menu head body :: rest | .ifBlock condition body span :: rest =>
      obtain ⟨hblock, hframes, hparsed⟩ := h
      exact ⟨fun st hst => hblock.head st (List.mem_cons_of_mem _ hst), ⟨hblock.tail, hframes⟩, hparsed⟩
    | .choice c :: rest =>
      obtain ⟨hblock, hframes, hparsed⟩ := h
      simp only [Resolver.next]
      split
      · exact trivial
      · exact ⟨hblock.tail, hframes, hparsed⟩
    | .config c :: rest | .menuconfig c :: rest | .comment c :: rest =>
      obtain ⟨hblock, hframes, hparsed⟩ := h
      exact ⟨hblock.tail, hframes, hparsed⟩

theorem inFiles_begin (hr : rs r) : (r.begin entry).InFiles rs entry := by
  cases entry with
  | tree root =>
    exact ⟨fun st hst => .inr ⟨r, root, hr, rfl, rfl, hst⟩, trivial, List.forall_mem_nil _⟩
  | file path =>
    simp only [Resolver.begin]
    cases hpath : r.loader.canonicalize path with
    | error e => trivial
    | ok file =>
      simp only
      rcases hload : (r.load file).run.run Session.start with ⟨e | root, s⟩
      · trivial
      · obtain ⟨hroot, hparsed⟩ := Resolver.loaded_of_run hload
        have hloaded := hroot.resolve_left List.not_mem_nil
        have hopened : Opened rs file root := ⟨⟨r, path, hr, hpath⟩, r, hr, hloaded⟩
        refine ⟨hopened.blockIn [], trivial, ?_⟩
        intro known hknown
        exact ⟨r, hr, (hparsed known hknown).resolve_left List.not_mem_nil⟩

/-- In every stage of a session all statements that are left stand in the files of their places. -/
theorem inFiles_run {stage : Stage} (h : Runs rs entry stage) : stage.InFiles rs entry := by
  induction h with
  | begin hr => exact inFiles_begin hr
  | next hr _ ih => exact inFiles_next hr ih

end InFiles

/-! ## Why sessions fail -/

section Causes

variable {rs : Resolver → Prop} {entry : Entry} {r : Resolver} {label : Path} {s s' : Session} {p : Point}
  {e : ResolveError}

/-- A step fails at an inclusion or at a choice without members. -/
theorem next_eq_error (h : r.next label (.running s p) = .ended s' (.error e)) :
    (∃ source rest, p.rest = .source source :: rest ∧ r.follow label s p source rest = .ended s' (.error e)) ∨
      ∃ c rest path, p.rest = .choice c :: rest ∧ c.members = [] ∧ e = .emptyChoice path c.span := by
  obtain ⟨root, stack, frames, before, rest⟩ := p
  match rest with
  | [] =>
    change Stage.leave s _ = _ at h
    unfold Stage.leave at h
    rcases frames with _ | ⟨_ | _ | _, frames⟩ <;> cases h
  | .source source :: rest => exact .inl ⟨source, rest, rfl, h⟩
  | .menu _ _ :: _ | .ifBlock _ _ _ :: _ | .config _ :: _ | .menuconfig _ :: _ | .comment _ :: _ => cases h
  | .choice c :: rest =>
    simp only [Resolver.next] at h
    split at h
    · rename_i hempty
      obtain ⟨-, hresult⟩ := Stage.ended.inj h
      exact .inr ⟨c, rest, _, rfl, List.isEmpty_iff.mp hempty, (Except.error.inj hresult).symm⟩
    · cases h

/-- A session ends where it begins or in a step. -/
theorem Runs.ended_cases {result : Except ResolveError ResolvedTree} (h : Runs rs entry (.ended s result)) :
    (∃ r, rs r ∧ r.begin entry = .ended s result) ∨
      ∃ r s' p, rs r ∧ Runs rs entry (.running s' p) ∧ r.next entry.label (.running s' p) = .ended s result := by
  generalize hstage : Stage.ended s result = stage at h
  induction h with
  | begin hr => exact .inl ⟨_, hr, rfl⟩
  | @next r stage hr h ih =>
    cases stage with
    | ended s' result' => exact ih hstage
    | running s' p => exact .inr ⟨r, s', p, hr, h, rfl⟩

/-- A session comes to an inclusion and is not stopped there. -/
structure Reaches (rs : Resolver → Prop) (entry : Entry) (r : Resolver) (s : Session) (stack : List Path)
    (source : Source) : Prop where
  admitted : rs r
  runs : ∃ p rest, Runs rs entry (.running s p) ∧ p.stack = stack ∧ p.rest = .source source :: rest
  goesOn : r.stop? s.expansions = none

variable {stack : List Path} {source : Source}

/-- The inclusion stands in the innermost file. -/
theorem Reaches.inFile (h : Reaches rs entry r s stack source) :
    InFile rs entry stack (.source source) := by
  obtain ⟨p, rest, hruns, rfl, hrest⟩ := h.runs
  have hblock := (inFiles_run hruns).1
  rw [hrest] at hblock
  exact hblock.head _ List.mem_cons_self

/-- An inclusion that is reached is followed. -/
theorem Reaches.exists_follow (h : Reaches rs entry r s stack source) : ∃ p rest, p.stack = stack ∧
    Runs rs entry (r.follow entry.label s p source rest) := by
  obtain ⟨p, rest, hruns, hstack, hrest⟩ := h.runs
  refine ⟨p, rest, hstack, ?_⟩
  have hnext := Runs.next h.admitted hruns
  obtain ⟨root, stack', frames, before, rest'⟩ := p
  obtain rfl : rest' = .source source :: rest := hrest
  exact hnext

/-- The ways in which a session may fail. -/
inductive FailsAt (rs : Resolver → Prop) (entry : Entry) : ResolveError → Prop where
  /-- The root leads to no file. -/
  | lost {r : Resolver} {given : Path} {e : IoError} (hr : rs r) (hentry : entry = .file given)
      (hpath : r.loader.canonicalize given = .error e) : FailsAt rs entry (.load (.io given e))
  /-- The root gives no tree. -/
  | root {r : Resolver} {given path : Path} {e : ResolveError} (hr : rs r) (hentry : entry = .file given)
      (hpath : r.loader.canonicalize given = .ok path) (hload : ((r.load path).run.run .start).1 = .error e) :
      FailsAt rs entry e
  | stopped {r : Resolver} {count : Nat} {e : ResolveError} (hr : rs r) (hstop : r.stop? count = some e) :
      FailsAt rs entry e
  | missing {r : Resolver} {s : Session} {stack : List Path} {source : Source} {e : IoError}
      (h : Reaches rs entry r s stack source) (htarget : r.loader.canonicalize (r.target stack source) = .error e)
      (hneeded : ¬ (source.kind.isOptional = true ∧ e.kind = .notFound)) :
      FailsAt rs entry
        (.noTarget (r.target stack source) (Resolver.referrer entry.label stack) source.span e)
  | cycle {r : Resolver} {s : Session} {stack : List Path} {source : Source} {path : Path}
      (h : Reaches rs entry r s stack source) (htarget : r.loader.canonicalize (r.target stack source) = .ok path)
      (hmem : path ∈ stack) :
      FailsAt rs entry (.cycle (path :: stack).reverse (Resolver.referrer entry.label stack) source.span)
  | tooDeep {r : Resolver} {s : Session} {stack : List Path} {source : Source} {path : Path}
      (h : Reaches rs entry r s stack source) (htarget : r.loader.canonicalize (r.target stack source) = .ok path)
      (hmem : path ∉ stack) (hfull : r.limits.maxDepth ≤ stack.length) :
      FailsAt rs entry
        (.tooDeep r.limits.maxDepth path (Resolver.referrer entry.label stack) source.span)
  /-- The file to which an inclusion leads gives no tree. -/
  | target {r : Resolver} {s : Session} {stack : List Path} {source : Source} {path : Path} {e : ResolveError}
      (h : Reaches rs entry r s stack source) (htarget : r.loader.canonicalize (r.target stack source) = .ok path)
      (hmem : path ∉ stack) (hroom : stack.length < r.limits.maxDepth)
      (hload : ((r.load path).run.run s.counted).1 = .error e) : FailsAt rs entry e
  | emptyChoice {stack : List Path} {path : Path} {c : Choice} (hfile : InFile rs entry stack (.choice c))
      (hempty : c.members = []) : FailsAt rs entry (.emptyChoice path c.span)

theorem failsAt_of_fails (h : Fails rs entry e) : FailsAt rs entry e := by
  obtain ⟨s, hended⟩ := h
  rcases hended.ended_cases with ⟨r, hr, hbegin⟩ | ⟨r, s', p, hr, hruns, hnext⟩
  · cases entry with
    | tree root => cases hbegin
    | file given =>
      simp only [Resolver.begin] at hbegin
      cases hpath : r.loader.canonicalize given with
      | error cause =>
        rw [hpath] at hbegin
        cases hbegin
        exact .lost hr rfl hpath
      | ok path =>
        simp only [hpath] at hbegin
        rcases hload : (r.load path).run.run Session.start with ⟨e' | root, s''⟩
        · rw [hload] at hbegin
          cases hbegin
          exact .root hr rfl hpath (congrArg Prod.fst hload)
        · rw [hload] at hbegin
          cases hbegin
  · rcases next_eq_error hnext with ⟨source, rest, hrest, hfollow⟩ | ⟨c, rest, path, hrest, hempty, rfl⟩
    · have hreaches (hstop : r.stop? s'.expansions = none) : Reaches rs entry r s' p.stack source :=
        ⟨hr, ⟨p, rest, hruns, rfl, hrest⟩, hstop⟩
      have hfollows := r.follows_follow entry.label s' p source rest
      rw [hfollow] at hfollows
      cases hfollows with
      | stopped hstop => exact .stopped hr hstop
      | missing hstop htarget hneeded => exact .missing (hreaches hstop) htarget hneeded
      | cycle hstop htarget hmem => exact .cycle (hreaches hstop) htarget hmem
      | tooDeep hstop htarget hmem hfull => exact .tooDeep (hreaches hstop) htarget hmem hfull
      | failed hstop htarget hmem hroom hload =>
        exact .target (hreaches hstop) htarget hmem hroom (congrArg Prod.fst hload)
    · have hblock := (inFiles_run hruns).1
      rw [hrest] at hblock
      exact .emptyChoice (hblock.head _ List.mem_cons_self) hempty

/-! ## Files that are missing or cannot be read -/

/-- The file of an inclusion cannot be found, and it may not be missing. -/
def Misses (r : Resolver) (stack : List Path) (source : Source) (e : IoError) : Prop :=
  r.loader.canonicalize (r.target stack source) = .error e ∧
    ¬ (source.kind.isOptional = true ∧ e.kind = .notFound)

/-- The file of an inclusion is found and may be expanded, but it cannot be read, and it is not remembered. -/
structure Unread (r : Resolver) (s : Session) (stack : List Path) (source : Source) (path : Path) (e : IoError) :
    Prop where
  found : r.loader.canonicalize (r.target stack source) = .ok path
  fresh : path ∉ stack
  room : stack.length < r.limits.maxDepth
  unknown : s.parsed.lookup path = none
  unread : r.loader.read path = .error e

/-- The root cannot be found or read. -/
def RootUnread (r : Resolver) (entry : Entry) (path : Path) (e : IoError) : Prop :=
  ∃ given, entry = .file given ∧ (r.loader.canonicalize given = .error e ∧ path = given ∨
    r.loader.canonicalize given = .ok path ∧ r.loader.read path = .error e)

theorem follow_of_misses {rest : List Stmt} {e : IoError} (hstop : r.stop? s.expansions = none)
    (h : Misses r p.stack source e) : r.follow label s p source rest = .ended s.counted
      (.error (.noTarget (r.target p.stack source) (Resolver.referrer label p.stack) source.span e)) := by
  unfold Resolver.follow
  rw [Resolver.run_locate, hstop]
  simp only [Resolver.lead, h.1, if_neg h.2]
  rfl

theorem follow_of_unread {rest : List Stmt} {path : Path} {e : IoError} (hstop : r.stop? s.expansions = none)
    (h : Unread r s p.stack source path e) :
    r.follow label s p source rest = .ended s.counted (.error (.load (.io path e))) := by
  have hunknown : s.counted.parsed.lookup path = none := h.unknown
  have hload : (r.load path).run.run s.counted = (.error (.load (.io path e)), s.counted) := by
    rw [Resolver.run_load_of_read hunknown, h.unread]
  unfold Resolver.follow
  rw [Resolver.run_locate, hstop]
  simp only [Resolver.lead, h.found, if_neg h.fresh, Stage.andThen, if_neg (Nat.not_le_of_lt h.room)]
  show Stage.andThen ((r.load path).run.run s.counted) _ = _
  rw [hload]
  rfl

theorem begin_of_rootUnread {path : Path} {e : IoError} (h : RootUnread r entry path e) :
    r.begin entry = .ended .start (.error (.load (.io path e))) := by
  obtain ⟨given, rfl, ⟨hpath, rfl⟩ | ⟨hpath, hread⟩⟩ := h
  · simp only [Resolver.begin, hpath]
  · have hload : (r.load path).run.run .start = (.error (.load (.io path e)), .start) := by
      rw [Resolver.run_load_of_read rfl, hread]
    simp only [Resolver.begin, hpath, hload]
    rfl

/-- A session that fails because a file is not found fails at the inclusion that asks for it. -/
theorem fails_noTarget_iff {target file : Path} {span : Span} {e : IoError} :
    Fails rs entry (.noTarget target file span e) ↔ ∃ r s stack source, Reaches rs entry r s stack source ∧
      Misses r stack source e ∧ InFile rs entry stack (.source source) ∧
        file = Resolver.referrer entry.label stack ∧ span = source.span ∧ target = r.target stack source := by
  constructor
  · intro h
    cases failsAt_of_fails h with
    | root _ _ _ hload | target _ _ _ _ hload =>
      obtain ⟨cause, hcause⟩ := Resolver.exists_load_of_run hload
      cases hcause
    | stopped _ hstop =>
      obtain ⟨-, hcause⟩ | ⟨limit, -, hcause⟩ := Resolver.cases_of_stop? hstop <;> cases hcause
    | missing hreaches htarget hneeded =>
      exact ⟨_, _, _, _, hreaches, ⟨htarget, hneeded⟩, hreaches.inFile, rfl, rfl, rfl⟩
  · rintro ⟨r, s, stack, source, hreaches, hmisses, -, rfl, rfl, rfl⟩
    obtain ⟨p, rest, rfl, hruns⟩ := hreaches.exists_follow
    rw [follow_of_misses hreaches.goesOn hmisses] at hruns
    exact ⟨_, hruns⟩

/-- A session that fails because a file cannot be read fails with the root or with a file that is included. -/
theorem fails_io_iff {path : Path} {e : IoError} : Fails rs entry (.load (.io path e)) ↔
    (∃ r, rs r ∧ RootUnread r entry path e) ∨
      ∃ r s stack source, Reaches rs entry r s stack source ∧ Unread r s stack source path e := by
  constructor
  · intro h
    cases failsAt_of_fails h with
    | lost hr hentry hpath => exact .inl ⟨_, hr, _, hentry, .inl ⟨hpath, rfl⟩⟩
    | root hr hentry hpath hload =>
      obtain ⟨-, hread, rfl⟩ := Resolver.run_load_eq_io_iff.mp hload
      exact .inl ⟨_, hr, _, hentry, .inr ⟨hpath, hread⟩⟩
    | stopped _ hstop =>
      obtain ⟨-, hcause⟩ | ⟨limit, -, hcause⟩ := Resolver.cases_of_stop? hstop <;> cases hcause
    | target hreaches htarget hmem hroom hload =>
      obtain ⟨hunknown, hread, rfl⟩ := Resolver.run_load_eq_io_iff.mp hload
      exact .inr ⟨_, _, _, _, hreaches, htarget, hmem, hroom, hunknown, hread⟩
  · rintro (⟨r, hr, hroot⟩ | ⟨r, s, stack, source, hreaches, hunread⟩)
    · exact ⟨_, begin_of_rootUnread hroot ▸ Runs.begin hr⟩
    · obtain ⟨p, rest, rfl, hruns⟩ := hreaches.exists_follow
      rw [follow_of_unread hreaches.goesOn hunread] at hruns
      exact ⟨_, hruns⟩

end Causes

/-- **Files that are missing or cannot be read**: whatever the files hold, also where they change from step to step,
a session fails for want of a file exactly where it comes to an inclusion whose file is not found and may not be
missing, and then the error names the file in which that inclusion stands, and its span. It fails with a file that is
found but cannot be read exactly where it comes to an inclusion of that file, or if it is the root; then the error
names no inclusion. With one resolver this is what the session comes to. -/
theorem fails_unread_iff (rs : Resolver → Prop) (entry : Entry) :
    (∀ target file span e, Fails rs entry (.noTarget target file span e) ↔
      ∃ r s stack source, Reaches rs entry r s stack source ∧ Misses r stack source e ∧
        InFile rs entry stack (.source source) ∧ file = Resolver.referrer entry.label stack ∧
          span = source.span ∧ target = r.target stack source) ∧
    (∀ path e, Fails rs entry (.load (.io path e)) ↔ (∃ r, rs r ∧ RootUnread r entry path e) ∨
      ∃ r s stack source, Reaches rs entry r s stack source ∧ Unread r s stack source path e) ∧
    ∀ r e, Fails (· = r) entry e ↔ ((r.session entry).run.run .start).1 = .error e :=
  ⟨fun _ _ _ _ => fails_noTarget_iff, fun _ _ => fails_io_iff, fun _ _ => fails_iff⟩

/-- A file that includes a directory. -/
def intoDirectory : Resolver where
  loader := (⟨[(["Kconfig".toList], "source \"sub\"\n")], [["sub".toList]]⟩ : DiskTree).loader []
  expandPath := id
  base := ⟨"/"⟩

/-- The inclusion of the directory. -/
def directoryLine : Source :=
  ⟨.plain, ⟨"sub", "\"sub\"", ⟨.root, 7, 12, 1, 8⟩⟩, ⟨.root, 0, 12, 1, 1⟩⟩

/-- The directory is found but cannot be read, and the error does not say where it is included. -/
theorem intoDirectory_loses_inclusion : intoDirectory.Contains ⟨"/Kconfig"⟩ directoryLine ∧
    intoDirectory.loader.canonicalize (intoDirectory.target [⟨"/Kconfig"⟩] directoryLine) = .ok ⟨"/sub"⟩ ∧
    intoDirectory.loader.read ⟨"/sub"⟩ = .error DiskTree.isADirectory ∧
    intoDirectory.resolveFile ⟨"/Kconfig"⟩ = .error (.load (.io ⟨"/sub"⟩ DiskTree.isADirectory)) ∧
    ∀ target file span e, intoDirectory.resolveFile ⟨"/Kconfig"⟩ ≠ .error (.noTarget target file span e) := by
  obtain ⟨root, hparse⟩ := exists_ok_of_isOk (x := parse .root "source \"sub\"\n") (by decide +kernel)
  have hlines : inclusions root.statements = [directoryLine] := by
    have hread : (parse .root "source \"sub\"\n").toOption.map (fun root => inclusions root.statements) =
        some [directoryLine] := by decide +kernel
    rw [hparse] at hread
    exact Option.some.inj hread
  have hcontains : intoDirectory.Contains ⟨"/Kconfig"⟩ directoryLine :=
    ⟨_, .root, root, by decide +kernel, hparse, mem_inclusions.mp (hlines ▸ List.mem_singleton_self _)⟩
  have hfails : intoDirectory.resolveFile ⟨"/Kconfig"⟩ =
      .error (.load (.io ⟨"/sub"⟩ DiskTree.isADirectory)) := eq_error_of_failure? (by decide +kernel)
  exact ⟨hcontains, by decide +kernel, by decide +kernel, hfails, fun _ _ _ _ hother => nomatch hfails.symm.trans hother⟩

end KconfigLang
