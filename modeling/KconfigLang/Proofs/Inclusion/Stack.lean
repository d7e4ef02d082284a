import KconfigLang.Proofs.Inclusion.Numbering
import Mathlib.Data.List.Nodup
import Mathlib.Logic.Function.Iterate

/-!
# The stack of a session

A session expands blocks inside blocks and files inside files. Here it does so step by step, with the files that
are being expanded on a stack onto which one is pushed where an inclusion is followed, and from which it is popped
where its block ends. Nothing bounds the number of steps beforehand: the files are only known when they are read.

- `Resolver.next`: one step; `Resolver.begin`: where a session starts.
- `Resolver.wellStacked_next`: what a step keeps of the stack.
- `Leads`: what every run comes to, whatever the files hold at each step.
- `handles_all`: a block is left with the stack with which it was entered, or the session has failed.
- `Resolver.outcomeFrom_next`: a step does not change what the session comes to.
- `session_stack`: whole sessions.
-/

namespace KconfigLang

open Relation

/-! ## Sessions step by step -/

/-- What surrounds the block that is being expanded: the statement that it belongs to, between what the statements
before that one became and the statements behind it. -/
inductive Frame where
  | menu (head : Menu) (before rest : List Stmt)
  | ifBlock (condition : Expr) (span : Span) (before rest : List Stmt)
  /-- An inclusion, where the block is that of its file. -/
  | file (before rest : List Stmt)

/-- Where a session stands. -/
structure Point where
  /-- The tree that is resolved. -/
  root : Root
  /-- The files that are being expanded, innermost first. -/
  stack : List Path
  /-- What surrounds the block that is being expanded, innermost first. -/
  frames : List Frame
  /-- What the statements of the block became so far. -/
  before : List Stmt
  /-- The statements of the block that are left. -/
  rest : List Stmt

namespace Point

/-- The first statements of the block became `out`, and `rest` is left. -/
def yield (p : Point) (out rest : List Stmt) : Point :=
  { p with before := p.before ++ out, rest }

/-- A block is entered. -/
def enter (p : Point) (frame : Frame) (block : List Stmt) : Point :=
  { p with frames := frame :: p.frames, before := [], rest := block }

/-- A file is pushed and its block is entered; the statements `rest` come behind the inclusion. -/
def push (p : Point) (path : Path) (rest block : List Stmt) : Point :=
  { p with stack := path :: p.stack, frames := .file p.before rest :: p.frames, before := [], rest := block }

end Point

/-- What a session is at some moment. -/
inductive Stage where
  | running (s : Session) (p : Point)
  | ended (s : Session) (result : Except ResolveError ResolvedTree)

namespace Stage

/-- A session goes on with a result or ends with an error. -/
def andThen {α : Type} (outcome : Except ResolveError α × Session) (f : Session → α → Stage) : Stage :=
  match outcome with
  | (.ok a, s) => f s a
  | (.error e, s) => .ended s (.error e)

/-- A block is left; a file that ends with it is popped. -/
def leave (s : Session) (p : Point) : Stage :=
  match p.frames with
  | [] => .ended s (.ok ⟨p.root.file, p.root.mainMenu, p.before, s.sources⟩)
  | .menu head before rest :: frames =>
    .running s { p with frames, before := before ++ [.menu head p.before], rest }
  | .ifBlock condition span before rest :: frames =>
    .running s { p with frames, before := before ++ [.ifBlock condition p.before span], rest }
  | .file before rest :: frames =>
    .running s { p with stack := p.stack.tail, frames, before := before ++ p.before, rest }

end Stage

namespace Resolver

/-- An inclusion is followed; the statements `rest` come behind it. -/
def follow (r : Resolver) (label : Path) (s : Session) (p : Point) (source : Source) (rest : List Stmt) : Stage :=
  .andThen ((r.locate label p.stack source).run.run s) fun s target =>
    match target with
    | none => .running s (p.yield [] rest)
    | some path =>
      if r.limits.maxDepth ≤ p.stack.length then
        .ended s (.error (.tooDeep r.limits.maxDepth path (referrer label p.stack) source.span))
      else
        .andThen ((r.load path).run.run s) fun s tree => .running s (p.push path rest tree.statements)

/-- The next step of a session. -/
def next (r : Resolver) (label : Path) : Stage → Stage
  | .ended s result => .ended s result
  | .running s p =>
    match p.rest with
    | [] => .leave s p
    | .source source :: rest => r.follow label s p source rest
    | .menu head body :: rest => .running s (p.enter (.menu head p.before rest) body)
    | .ifBlock condition body span :: rest => .running s (p.enter (.ifBlock condition span p.before rest) body)
    | .choice c :: rest =>
      if c.members.isEmpty then
        .andThen ((refuseChoice label p.stack c).run.run s) fun s out => .running s (p.yield out rest)
      else .running s (p.yield [.choice c] rest)
    | .config c :: rest => .running s (p.yield [.config c] rest)
    | .menuconfig c :: rest => .running s (p.yield [.menuconfig c] rest)
    | .comment c :: rest => .running s (p.yield [.comment c] rest)

/-- The first stage of a session. -/
def begin (r : Resolver) : Entry → Stage
  | .file path =>
    match r.loader.canonicalize path with
    | .error e => .ended .start (.error (.load (.io path e)))
    | .ok file => .andThen ((r.load file).run.run .start) fun s root =>
      .running s ⟨root, [file], [], [], root.statements⟩
  | .tree root =>
    .running { Session.start with sources := r.firstSources (.tree root) }
      ⟨root, (root.path.map r.canonicalOrSelf).toList, [], [], root.statements⟩

end Resolver

/-! ## The stack -/

/-- The files on the stack differ, and no more of them are nested than the limit allows, where the root is always
allowed. -/
def Stage.WellStacked (limit : Nat) : Stage → Prop
  | .running _ p => p.stack.Nodup ∧ p.stack.length ≤ max 1 limit
  | .ended _ _ => True

theorem Stage.wellStacked_andThen {α : Type} {limit : Nat} {outcome : Except ResolveError α × Session}
    {f : Session → α → Stage} (h : ∀ s a, outcome = (.ok a, s) → (f s a).WellStacked limit) :
    (andThen outcome f).WellStacked limit := by
  obtain ⟨e | a, s⟩ := outcome
  · trivial
  · exact h s a rfl

/-- The files below one that is popped stay as they are. -/
theorem Stage.wellStacked_leave {limit : Nat} {s : Session} {p : Point}
    (h : (running s p).WellStacked limit) : (leave s p).WellStacked limit := by
  obtain ⟨hnodup, hlength⟩ := h
  obtain ⟨root, stack, frames, before, rest⟩ := p
  rcases frames with _ | ⟨_ | _ | _, frames⟩
  · trivial
  · exact ⟨hnodup, hlength⟩
  · exact ⟨hnodup, hlength⟩
  · refine ⟨hnodup.tail, ?_⟩
    simp only [List.length_tail]
    exact Nat.le_trans (Nat.sub_le _ _) hlength

namespace Resolver

variable {r : Resolver} {label : Path}

/-- All that comes of an inclusion: an error, nothing, or another file, if there is room for it. -/
theorem follow_cases (r : Resolver) (label : Path) (s : Session) (p : Point) (source : Source) (rest : List Stmt) :
    (∃ s' e, r.follow label s p source rest = .ended s' (.error e)) ∨
    (∃ s', r.follow label s p source rest = .running s' (p.yield [] rest)) ∨
    (p.stack.length < r.limits.maxDepth ∧ ∃ s' path tree, path ∉ p.stack ∧
      r.follow label s p source rest = .running s' (p.push path rest tree)) := by
  unfold follow
  rcases hlocate : (r.locate label p.stack source).run.run s with ⟨e | target, s'⟩
  · exact .inl ⟨s', e, rfl⟩
  rcases target with _ | path
  · exact .inr (.inl ⟨s', rfl⟩)
  have hfresh : path ∉ p.stack := (locates_of_run hlocate).1.2
  by_cases hfull : r.limits.maxDepth ≤ p.stack.length
  · exact .inl ⟨s', _, by simp only [Stage.andThen, if_pos hfull]; rfl⟩
  simp only [Stage.andThen, if_neg hfull]
  rcases (r.load path).run.run s' with ⟨e | tree, s''⟩
  · exact .inl ⟨s'', e, rfl⟩
  · exact .inr (.inr ⟨Nat.lt_of_not_le hfull, s'', path, tree.statements, hfresh, rfl⟩)

theorem wellStacked_follow {s : Session} {p : Point} {source : Source} {rest : List Stmt}
    (h : (Stage.running s p).WellStacked r.limits.maxDepth) :
    (r.follow label s p source rest).WellStacked r.limits.maxDepth := by
  obtain ⟨hnodup, hlength⟩ := h
  rcases r.follow_cases label s p source rest with ⟨s', e, hend⟩ | ⟨s', hskip⟩ |
    ⟨hroom, s', path, tree, hfresh, hpush⟩
  · rw [hend]
    trivial
  · rw [hskip]
    exact ⟨hnodup, hlength⟩
  · rw [hpush]
    exact ⟨List.nodup_cons.mpr ⟨hfresh, hnodup⟩, Nat.le_trans hroom (Nat.le_max_right _ _)⟩

/-- A step keeps the files on the stack different, and no more of them than the limit allows. -/
theorem wellStacked_next {stage : Stage} (h : stage.WellStacked r.limits.maxDepth) :
    (r.next label stage).WellStacked r.limits.maxDepth := by
  cases stage with
  | ended s result => trivial
  | running s p =>
    obtain ⟨root, stack, frames, before, rest⟩ := p
    match rest with
    | [] => exact Stage.wellStacked_leave h
    | .source source :: rest => exact wellStacked_follow h
    | .menu _ _ :: _ | .ifBlock _ _ _ :: _ | .config _ :: _ | .menuconfig _ :: _ | .comment _ :: _ => exact h
    | .choice c :: rest =>
      simp only [next]
      split
      · exact Stage.wellStacked_andThen fun _ _ _ => h
      · exact h

/-- All that a session can begin with: an error, or a block that nothing surrounds. -/
theorem begin_cases (r : Resolver) (entry : Entry) :
    (∃ s e, r.begin entry = .ended s (.error e)) ∨
    (∃ s p, r.begin entry = .running s p ∧ p.frames = [] ∧ p.stack.Nodup ∧ p.stack.length ≤ 1) := by
  cases entry with
  | file path =>
    simp only [begin]
    rcases r.loader.canonicalize path with e | file
    · exact .inl ⟨_, _, rfl⟩
    simp only
    rcases (r.load file).run.run .start with ⟨e | root, s⟩
    · exact .inl ⟨s, e, rfl⟩
    · exact .inr ⟨s, _, rfl, rfl, List.nodup_singleton file, Nat.le_refl 1⟩
  | tree root =>
    refine .inr ⟨_, _, rfl, rfl, ?_⟩
    cases root.path with
    | none => exact ⟨List.nodup_nil, Nat.zero_le 1⟩
    | some path => exact ⟨List.nodup_singleton _, Nat.le_refl 1⟩

theorem wellStacked_begin (r : Resolver) (entry : Entry) : (r.begin entry).WellStacked r.limits.maxDepth := by
  rcases r.begin_cases entry with ⟨s, e, hend⟩ | ⟨s, p, hrun, -, hnodup, hlength⟩
  · rw [hend]
    trivial
  · rw [hrun]
    exact ⟨hnodup, Nat.le_trans hlength (Nat.le_max_left _ _)⟩

end Resolver

/-! ## What every run comes to -/

/-- A step that a resolver with the limit can make. The resolver may be another one at every step, so that files may
change while they are expanded. -/
def Steps (limit : Nat) (label : Path) (a b : Stage) : Prop :=
  ∃ r : Resolver, r.limits.maxDepth = limit ∧ r.next label a = b

/-- A stage in which a resolver with the limit can begin. -/
def Starts (limit : Nat) (entry : Entry) (first : Stage) : Prop :=
  ∃ r : Resolver, r.limits.maxDepth = limit ∧ r.begin entry = first

/-- Every run, whatever its steps, comes to a stage with the property. -/
inductive Leads (next : Stage → Stage → Prop) (P : Stage → Prop) : Stage → Prop where
  | here {a : Stage} (h : P a) : Leads next P a
  | step {a : Stage} (h : ∀ b, next a b → Leads next P b) : Leads next P a

namespace Stage

/-- The statements before `rest` were expanded where they stood, or the session has failed. -/
def Returns (p : Point) (rest : List Stmt) : Stage → Prop
  | .running _ q => ∃ out, q = p.yield out rest
  | .ended _ result => ∃ e, result = .error e

/-- The session has come to a tree or an error. -/
def IsEnded : Stage → Prop
  | .running _ _ => False
  | .ended _ _ => True

end Stage

section Runs

variable {limit : Nat} {label : Path} {stack : List Path} {P Q : Stage → Prop} {next : Stage → Stage → Prop}

theorem Leads.trans {a : Stage} (h : Leads next P a) (hP : ∀ b, P b → Leads next Q b) : Leads next Q a := by
  induction h with
  | here h => exact hP _ h
  | step _ ih => exact .step ih

/-- A run that always takes the same next step comes to the property after some number of steps. -/
theorem Leads.exists_iterate {f : Stage → Stage} {a : Stage} (hf : ∀ b, next b (f b)) (h : Leads next P a) :
    ∃ n, P (f^[n] a) := by
  induction h with
  | here h => exact ⟨0, h⟩
  | step _ ih =>
    obtain ⟨n, hn⟩ := ih _ (hf _)
    exact ⟨n + 1, hn⟩

/-- A session goes on behind the statements that were expanded, unless it has failed. -/
theorem Leads.resume {p : Point} {rest : List Stmt} {a : Stage} (h : Leads next (Stage.Returns p rest) a)
    (hfails : ∀ s e, Q (.ended s (.error e))) (hrest : ∀ s out, Leads next Q (.running s (p.yield out rest))) :
    Leads next Q a := by
  refine h.trans fun stage hstage => ?_
  cases stage with
  | running s q =>
    obtain ⟨out, rfl⟩ := hstage
    exact hrest s out
  | ended s result =>
    obtain ⟨e, rfl⟩ := hstage
    exact .here (hfails s e)

/-- Statements are expanded, wherever they stand while the files of `stack` are being expanded. -/
def Handles (limit : Nat) (label : Path) (stack : List Path) (block : List Stmt) : Prop :=
  ∀ s p rest, p.stack = stack →
    Leads (Steps limit label) (Stage.Returns p rest) (.running s { p with rest := block ++ rest })

theorem Handles.nil : Handles limit label stack [] :=
  fun _ p _ _ => .here ⟨[], by simp [Point.yield]⟩

theorem Handles.cons {st : Stmt} {block : List Stmt} (hst : Handles limit label stack [st])
    (hblock : Handles limit label stack block) : Handles limit label stack (st :: block) := by
  intro s p rest hp
  refine (hst s p (block ++ rest) hp).resume (fun _ e => ⟨e, rfl⟩) fun s out => ?_
  refine (hblock s (p.yield out (block ++ rest)) rest hp).resume (fun _ e => ⟨e, rfl⟩) fun s out' => ?_
  exact .here ⟨out ++ out', by simp [Point.yield]⟩

/-- A block that is entered at `q` is expanded and left. -/
theorem Handles.entered {p q : Point} {rest : List Stmt} (h : Handles limit label stack q.rest) (s : Session)
    (hq : q.stack = stack)
    (hleave : ∀ s out, ∃ out', Stage.leave s (q.yield out []) = .running s (p.yield out' rest)) :
    Leads (Steps limit label) (Stage.Returns p rest) (.running s q) := by
  have hrun := h s q [] hq
  rw [List.append_nil] at hrun
  refine hrun.resume (fun _ e => ⟨e, rfl⟩) fun s out => .step fun b ⟨r, _, hb⟩ => ?_
  obtain ⟨out', hout'⟩ := hleave s out
  obtain rfl := hb
  rw [show r.next label (.running s (q.yield out [])) = .leave s (q.yield out []) from rfl, hout']
  exact .here ⟨out', rfl⟩

mutual

theorem handles_statement (hincluded : ∀ source, Handles limit label stack [.source source]) :
    ∀ st : Stmt, Handles limit label stack [st]
  | .source source => hincluded source
  | .menu head body => fun s p rest hp => .step fun _ ⟨_, _, hb⟩ => hb ▸
    (handles_block hincluded body).entered (q := p.enter (.menu head p.before rest) body) s hp
      fun _ out => ⟨[.menu head out], rfl⟩
  | .ifBlock condition body span => fun s p rest hp => .step fun _ ⟨_, _, hb⟩ => hb ▸
    (handles_block hincluded body).entered (q := p.enter (.ifBlock condition span p.before rest) body) s hp
      fun _ out => ⟨[.ifBlock condition out span], rfl⟩
  | .choice c => by
    intro s p rest _
    refine .step fun b ⟨r, _, hb⟩ => hb ▸ .here ?_
    by_cases hempty : c.members.isEmpty = true
    · simp only [Resolver.next, List.cons_append, if_pos hempty]
      exact ⟨_, rfl⟩
    · simp only [Resolver.next, List.cons_append, if_neg hempty]
      exact ⟨[.choice c], rfl⟩
  | .config c => fun _ _ _ _ => .step fun _ ⟨_, _, hb⟩ => hb ▸ .here ⟨[.config c], rfl⟩
  | .menuconfig c => fun _ _ _ _ => .step fun _ ⟨_, _, hb⟩ => hb ▸ .here ⟨[.menuconfig c], rfl⟩
  | .comment c => fun _ _ _ _ => .step fun _ ⟨_, _, hb⟩ => hb ▸ .here ⟨[.comment c], rfl⟩

/-- A block is expanded if inclusions are. -/
theorem handles_block (hincluded : ∀ source, Handles limit label stack [.source source]) :
    ∀ block : List Stmt, Handles limit label stack block
  | [] => .nil
  | st :: block => (handles_statement hincluded st).cons (handles_block hincluded block)

end

/-- An inclusion is expanded if the blocks of the files that fit onto the stack are. -/
theorem handles_source (hdeeper : stack.length < limit → ∀ path block, Handles limit label (path :: stack) block)
    (source : Source) : Handles limit label stack [.source source] := by
  intro s p rest hp
  refine .step fun b ⟨r, hr, hb⟩ => ?_
  rw [show r.next label (.running s { p with rest := [.source source] ++ rest }) =
    r.follow label s { p with rest := [.source source] ++ rest } source rest from rfl] at hb
  rcases r.follow_cases label s { p with rest := [.source source] ++ rest } source rest with
    ⟨s', e, hend⟩ | ⟨s', hskip⟩ | ⟨hfits, s', path, block, -, hpush⟩
  · rw [← hb, hend]
    exact .here ⟨e, rfl⟩
  · rw [← hb, hskip]
    exact .here ⟨[], rfl⟩
  · rw [← hb, hpush]
    have hroom : stack.length < limit := by rwa [← hp, ← hr]
    exact (hdeeper hroom path block).entered s' (congrArg (path :: ·) hp) fun _ out => ⟨out, rfl⟩

/-- A block is expanded whatever files it leads to: the induction is on the number of files for which there is
room on the stack. -/
theorem handles_all (room : Nat) (stack : List Path) (hroom : limit ≤ room + stack.length) (block : List Stmt) :
    Handles limit label stack block := by
  induction room generalizing stack block with
  | zero =>
    refine handles_block (handles_source fun hfits => ?_) block
    omega
  | succ room ih =>
    refine handles_block (handles_source fun _ path inner => ih (path :: stack) ?_ inner) block
    rw [List.length_cons]
    omega

/-- The statements before `rest` are expanded where they stand, or the session fails. -/
theorem leads_returns (limit : Nat) (label : Path) (s : Session) (p : Point) (block rest : List Stmt) :
    Leads (Steps limit label) (Stage.Returns p rest) (.running s { p with rest := block ++ rest }) :=
  handles_all limit p.stack (Nat.le_add_right _ _) block s p rest rfl

/-- A block that nothing surrounds is the last one of its session. -/
theorem leads_isEnded (s : Session) {p : Point} (h : p.frames = []) :
    Leads (Steps limit label) Stage.IsEnded (.running s p) := by
  have hrun := leads_returns limit label s p p.rest []
  rw [List.append_nil] at hrun
  refine hrun.resume (fun _ _ => trivial) fun s out => .step fun b ⟨r, _, hb⟩ => .here ?_
  rw [← hb]
  show (Stage.leave s (p.yield out [])).IsEnded
  unfold Stage.leave
  rw [show (p.yield out []).frames = [] from h]
  trivial

/-- A session ends. -/
theorem leads_isEnded_of_starts {entry : Entry} {first : Stage} (h : Starts limit entry first) :
    Leads (Steps limit label) Stage.IsEnded first := by
  obtain ⟨r, -, rfl⟩ := h
  rcases r.begin_cases entry with ⟨s, e, hend⟩ | ⟨s, p, hrun, hframes, -, -⟩
  · rw [hend]
    exact .here trivial
  · rw [hrun]
    exact leads_isEnded s hframes

/-- The stack in every stage of every run. -/
theorem wellStacked_run {entry : Entry} {first stage : Stage} (h : Starts limit entry first)
    (hrun : ReflTransGen (Steps limit label) first stage) : stage.WellStacked limit := by
  induction hrun with
  | refl =>
    obtain ⟨r, rfl, rfl⟩ := h
    exact r.wellStacked_begin entry
  | tail _ hstep ih =>
    obtain ⟨r, rfl, rfl⟩ := hstep
    exact Resolver.wellStacked_next ih

end Runs

/-! ## What a session comes to -/

namespace Resolver

/-- What is left of a session behind a block that became `block`. -/
def unwind (r : Resolver) (label : Path) (root : Root) :
    (stack : List Path) → List Frame → (block : List Stmt) → SessionM ResolvedTree
  | _, [], block => do return ⟨root.file, root.mainMenu, block, (← get).sources⟩
  | stack, .menu head before rest :: frames, block => do
    let more ← r.expandBlock label stack rest
    unwind r label root stack frames (before ++ [.menu head block] ++ more)
  | stack, .ifBlock condition span before rest :: frames, block => do
    let more ← r.expandBlock label stack rest
    unwind r label root stack frames (before ++ [.ifBlock condition block span] ++ more)
  | stack, .file before rest :: frames, block => do
    let more ← r.expandBlock label stack.tail rest
    unwind r label root stack.tail frames (before ++ block ++ more)

/-- What is left of a session at a point of it. -/
def remaining (r : Resolver) (label : Path) (p : Point) : SessionM ResolvedTree := do
  let more ← r.expandBlock label p.stack p.rest
  r.unwind label p.root p.stack p.frames (p.before ++ more)

/-- What a session comes to from a stage of it. -/
def outcomeFrom (r : Resolver) (label : Path) : Stage → Except ResolveError ResolvedTree × Session
  | .running s p => (r.remaining label p).run.run s
  | .ended s result => (result, s)

section Outcome

variable {r : Resolver} {label : Path}

/-- The bound on the recursion of an inclusion is the limit that the session reports. -/
theorem includeSource_eq (r : Resolver) (label : Path) (stack : List Path) (source : Source) :
    r.includeSource label (r.limits.maxDepth - stack.length) stack source = (do
      match ← r.locate label stack source with
      | none => return []
      | some path =>
        if r.limits.maxDepth ≤ stack.length then
          throw (.tooDeep r.limits.maxDepth path (referrer label stack) source.span)
        else
          let root ← r.load path
          r.expandBlock label (path :: stack) root.statements) := by
  by_cases hfull : r.limits.maxDepth ≤ stack.length
  · rw [Nat.sub_eq_zero_of_le hfull, includeSource]
    refine bind_congr fun target => ?_
    cases target with
    | none => rfl
    | some path => exact (if_pos hfull).symm
  · obtain ⟨room, hroom⟩ := Nat.exists_eq_add_of_lt (Nat.lt_of_not_le hfull)
    have hleft : r.limits.maxDepth - stack.length = room + 1 := by omega
    have hmore : r.limits.maxDepth - (stack.length + 1) = room := by omega
    rw [hleft, includeSource]
    refine bind_congr fun target => ?_
    cases target with
    | none => rfl
    | some path =>
      refine Eq.trans ?_ (if_neg hfull).symm
      unfold expandBlock
      rw [List.length_cons, hmore]

theorem remaining_cons (r : Resolver) (label : Path) (p : Point) (st : Stmt) (rest : List Stmt) :
    r.remaining label { p with rest := st :: rest } =
      Stmt.splice (r.includeSource label (r.limits.maxDepth - p.stack.length) p.stack) (refuseChoice label p.stack) st
        >>= fun out => r.remaining label (p.yield out rest) := by
  simp [remaining, expandBlock, Stmt.spliceAll, Point.yield]

theorem outcomeFrom_andThen {α : Type} {step : SessionM α} {g : α → SessionM ResolvedTree} {f : Session → α → Stage}
    {s : Session} (h : ∀ s a, r.outcomeFrom label (f s a) = (g a).run.run s) :
    r.outcomeFrom label (.andThen (step.run.run s) f) = (step >>= g).run.run s := by
  rw [run_bind]
  rcases step.run.run s with ⟨e | a, s'⟩
  · rfl
  · exact h s' a

/-- Leaving a block does not change what the session comes to. -/
theorem outcomeFrom_leave (s : Session) {p : Point} (h : p.rest = []) :
    r.outcomeFrom label (.leave s p) = (r.remaining label p).run.run s := by
  obtain ⟨root, stack, frames, before, rest⟩ := p
  obtain rfl : rest = [] := h
  have hblock : r.remaining label ⟨root, stack, frames, before, []⟩ = r.unwind label root stack frames before := by
    simp [remaining, expandBlock, Stmt.spliceAll]
  rw [hblock]
  rcases frames with _ | ⟨_ | _ | _, frames⟩ <;> rfl

/-- Following an inclusion does not change what the session comes to. -/
theorem outcomeFrom_follow (s : Session) (p : Point) (source : Source) (rest : List Stmt) :
    r.outcomeFrom label (r.follow label s p source rest) =
      (r.remaining label { p with rest := .source source :: rest }).run.run s := by
  rw [remaining_cons, Stmt.splice, includeSource_eq, bind_assoc]
  refine outcomeFrom_andThen fun s target => ?_
  cases target with
  | none => rw [pure_bind]; rfl
  | some path =>
    by_cases hfull : r.limits.maxDepth ≤ p.stack.length
    · simp only [if_pos hfull]
      rfl
    · simp only [if_neg hfull, bind_assoc]
      exact outcomeFrom_andThen fun s tree => rfl

/-- A step does not change what the session comes to. -/
theorem outcomeFrom_next (r : Resolver) (label : Path) (stage : Stage) :
    r.outcomeFrom label (r.next label stage) = r.outcomeFrom label stage := by
  cases stage with
  | ended s result => rfl
  | running s p =>
    obtain ⟨root, stack, frames, before, rest⟩ := p
    match rest with
    | [] => exact outcomeFrom_leave s rfl
    | .source source :: rest => exact outcomeFrom_follow s ⟨root, stack, frames, before, []⟩ source rest
    | .menu head body :: rest | .ifBlock condition body span :: rest =>
      show _ = (r.remaining label { (⟨root, stack, frames, before, []⟩ : Point) with rest := _ :: rest }).run.run s
      rw [remaining_cons, Stmt.splice, bind_assoc]
      simp only [pure_bind]
      rfl
    | .choice c :: rest =>
      show _ = (r.remaining label { (⟨root, stack, frames, before, []⟩ : Point) with rest := _ :: rest }).run.run s
      rw [remaining_cons, Stmt.splice]
      by_cases hempty : c.members.isEmpty = true
      · simp only [next, if_pos hempty]
        exact outcomeFrom_andThen fun s out => rfl
      · simp only [next, if_neg hempty, pure_bind]
        rfl
    | .config c :: rest | .menuconfig c :: rest | .comment c :: rest =>
      show _ = (r.remaining label { (⟨root, stack, frames, before, []⟩ : Point) with rest := _ :: rest }).run.run s
      rw [remaining_cons, Stmt.splice, pure_bind]
      rfl

theorem outcomeFrom_begin (r : Resolver) (entry : Entry) :
    r.outcomeFrom entry.label (r.begin entry) = (r.session entry).run.run .start := by
  cases entry with
  | tree root => rfl
  | file path =>
    simp only [begin, session, fileSession]
    cases r.loader.canonicalize path with
    | error e => rfl
    | ok file => exact outcomeFrom_andThen fun s root => rfl

/-- After any number of steps a session comes to what it comes to from its start. -/
theorem outcomeFrom_iterate (r : Resolver) (entry : Entry) (n : Nat) :
    r.outcomeFrom entry.label ((r.next entry.label)^[n] (r.begin entry)) = (r.session entry).run.run .start := by
  induction n with
  | zero => exact r.outcomeFrom_begin entry
  | succ n ih => rw [Function.iterate_succ_apply', r.outcomeFrom_next, ih]

end Outcome

end Resolver

/-! ## Whole sessions -/

/-- **The stack of a session**: whatever the files hold, also where they change from step to step, the files on the
stack always differ and are no more than the limit allows. Statements of a block are expanded where they stand, with
the stack as it was, unless the session fails; and every session ends. With files that do not change, every stage
leads to what the session comes to when what is left of it is expanded with the files of its stack. The program has
that result if the clock can show the end of the time limit and there are numbers for the files, from that of the root
on; else it stops without one. -/
theorem session_stack (limit : Nat) (entry : Entry) :
    (∀ first stage, Starts limit entry first → ReflTransGen (Steps limit entry.label) first stage →
        stage.WellStacked limit) ∧
      (∀ s p block rest, Leads (Steps limit entry.label) (Stage.Returns p rest)
        (.running s { p with rest := block ++ rest })) ∧
      (∀ first, Starts limit entry first → Leads (Steps limit entry.label) Stage.IsEnded first) ∧
      ∀ r : Resolver, r.limits.maxDepth = limit →
        (∀ n, r.outcomeFrom entry.label ((r.next entry.label)^[n] (r.begin entry)) =
          (r.session entry).run.run .start) ∧
        ∃ n s result, (r.next entry.label)^[n] (r.begin entry) = .ended s result ∧
          (r.session entry).run.run .start = (result, s) ∧
          r.ending? (r.session entry) =
            if r.hasDeadline = true ∧ entry.number.index.toNat + s.sources.size < UInt32.size then some result
            else none := by
  refine ⟨fun _ _ => wellStacked_run, leads_returns limit entry.label, fun _ => leads_isEnded_of_starts,
    fun r hr => ⟨r.outcomeFrom_iterate entry, ?_⟩⟩
  have hleads : Leads (Steps limit entry.label) Stage.IsEnded (r.begin entry) :=
    leads_isEnded_of_starts ⟨r, hr, rfl⟩
  obtain ⟨n, hended⟩ := hleads.exists_iterate (f := r.next entry.label) fun b => ⟨r, hr, rfl⟩
  have hlast := r.outcomeFrom_iterate entry n
  cases hstage : (r.next entry.label)^[n] (r.begin entry) with
  | running s p =>
    rw [hstage] at hended
    exact hended.elim
  | ended s result =>
    rw [hstage] at hlast
    refine ⟨n, s, result, hstage, hlast.symm, ?_⟩
    rw [r.ending?_session, ← hlast]
    rfl

/-- Infinitely many files, each of which includes a file with a longer name. -/
def endless : Resolver where
  loader := { canonicalize := .ok, read := fun path => .ok ("source \"" ++ path.text ++ "x\"\n") }
  expandPath := id
  base := ⟨"/"⟩
  limits := { maxDepth := 3 }

theorem endless_stack : ∃ n s e,
    (endless.next ⟨"/a"⟩)^[n] (endless.begin (.file ⟨"/a"⟩)) = .ended s (.error e) ∧
      ∀ stage, ReflTransGen (Steps 3 ⟨"/a"⟩) (endless.begin (.file ⟨"/a"⟩)) stage → stage.WellStacked 3 := by
  have hmain := session_stack 3 (.file ⟨"/a"⟩)
  have hstart : Starts 3 (.file ⟨"/a"⟩) (endless.begin (.file ⟨"/a"⟩)) := ⟨endless, rfl, rfl⟩
  obtain ⟨n, s, result, hended, houtcome, -⟩ := (hmain.2.2.2 endless rfl).2
  have herror : (endless.resolveFile ⟨"/a"⟩).isOk = false := by decide +kernel
  cases result with
  | ok resolved =>
    have hok : endless.resolveFile ⟨"/a"⟩ = .ok resolved := congrArg Prod.fst houtcome
    rw [hok] at herror
    exact nomatch herror
  | error e => exact ⟨n, s, e, hended, fun stage => hmain.1 _ stage hstart⟩

/-- A tree that has the last number stops the program, although there is nothing to expand. -/
theorem lastTree_stops : ¬ ∃ result, endless.resolveRoot? ⟨.last, none, none, []⟩ = some result := by
  rintro ⟨result, hresult⟩
  exact nomatch hresult

end KconfigLang
