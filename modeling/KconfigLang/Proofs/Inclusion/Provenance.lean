import KconfigLang.Files.MemoryTree
import KconfigLang.Proofs.Grammar.Placement
import KconfigLang.Proofs.Inclusion.Cache

/-!
# Where statements come from

Every node of a resolved configuration says truly which file it comes from and where it stands there.

- `Resolver.TreeOf`: the tree of a file, read under a number that stands for the file and its text.
- `Resolver.Expands`: what an inclusion is replaced by: the statements of its file, expanded in turn.
- `Resolver.Sound`: what holds of a session at every point.
- `Resolver.Gives`: what a step gives if it does not fail; one rule for each way to build a step.
- `Resolver.resolveFile_provenance`: whole configurations.
-/

namespace KconfigLang

namespace SourceMap

/-- Every number of a map keeps its file in a later one. -/
def Grows (later map : SourceMap) : Prop :=
  ∀ id file, map.Keeps id file → later.Keeps id file

theorem Grows.refl (map : SourceMap) : map.Grows map :=
  fun _ _ h => h

theorem Grows.trans {first second third : SourceMap} (h : second.Grows first) (h' : third.Grows second) :
    third.Grows first :=
  fun id file hkeeps => h' id file (h id file hkeeps)

/-- A number stands for a file. -/
def Registers (map : SourceMap) (id : FileId) (file : SourceFile) : Prop :=
  map.get? id = some file

theorem Counted.grows {map : SourceMap} (h : map.Counted 0) (path : Path) (text : Option String) :
    (map.addWrapping path text).2.Grows map :=
  fun _ _ hkeeps => hkeeps.add h path text

end SourceMap

open SourceMap

/-! ## Trees and what replaces inclusions -/

namespace Resolver

variable {r : Resolver} {has has' : FileId → SourceFile → Prop} {path : Path} {root : Root}

/-- The tree of a file, read under a number; `has` says which numbers stand for which files. -/
def TreeOf (r : Resolver) (has : FileId → SourceFile → Prop) (path : Path) (root : Root) : Prop :=
  ∃ text id tree, r.loader.read path = .ok text ∧ has id ⟨path, some text⟩ ∧ parse id text = .ok tree ∧
    root = { tree with path := some path }

/-- The statements that replace an inclusion: those of the file that it leads to, with the inclusions in them
replaced in turn, or none if the file may be missing and is. Another `room` files fit into the `stack` of the
files that are being expanded, innermost first. -/
def Expands (r : Resolver) (has : FileId → SourceFile → Prop) :
    (room : Nat) → (stack : List Path) → Source → List Stmt → Prop
  | 0, stack, source, out => r.Locates stack source none ∧ out = []
  | room + 1, stack, source, out => r.Locates stack source none ∧ out = [] ∨
    ∃ path root, r.Locates stack source (some path) ∧ r.TreeOf has path root ∧
      Stmt.ReplacesAll (Expands r has room (path :: stack)) root.statements out

theorem TreeOf.imp (h : r.TreeOf has path root) (himp : ∀ id file, has id file → has' id file) :
    r.TreeOf has' path root := by
  obtain ⟨text, id, tree, htext, hhas, htree, hroot⟩ := h
  exact ⟨text, id, tree, htext, himp id _ hhas, htree, hroot⟩

theorem Expands.imp {room : Nat} {stack : List Path} {source : Source} {out : List Stmt}
    (h : r.Expands has room stack source out) (himp : ∀ id file, has id file → has' id file) :
    r.Expands has' room stack source out := by
  induction room generalizing stack source out with
  | zero => exact h
  | succ room ih =>
    rcases h with hnone | ⟨path, root, hlocates, htree, hout⟩
    · exact .inl hnone
    · exact .inr ⟨path, root, hlocates, htree.imp himp, hout.imp fun _ _ h => ih h⟩

/-! ## Sessions -/

/-- A session has registered its files under different numbers, and the trees that it remembers were read under
the numbers of their files. -/
structure Sound (r : Resolver) (s : Session) : Prop where
  counted : s.sources.Counted 0
  remembers : ∀ entry ∈ s.parsed, r.TreeOf s.sources.Keeps entry.1 entry.2

theorem sound_start (r : Resolver) : r.Sound .start where
  counted := counted_empty
  remembers := List.forall_mem_nil _

/-- If a step does not fail, `R` relates the files that are then registered to its result, and the files that
were registered before keep their numbers. -/
def Gives {α : Type} (r : Resolver) (R : SourceMap → α → Prop) (step : SessionM α) (s : Session) : Prop :=
  ∀ a s', step.run.run s = (.ok a, s') → R s'.sources a ∧ r.Sound s' ∧ s'.sources.Grows s.sources

section Steps

variable {α β : Type} {R : SourceMap → α → Prop} {S : SourceMap → β → Prop} {step : SessionM α} {s : Session}

theorem gives_pure {a : α} (hs : r.Sound s) (h : R s.sources a) : r.Gives R (pure a) s := by
  rintro _ _ ⟨⟩
  exact ⟨h, hs, .refl _⟩

theorem gives_throw {e : ResolveError} : r.Gives R (throw e) s :=
  fun _ _ h => nomatch h

theorem gives_get_bind {f : Session → SessionM α} (h : r.Gives R (f s) s) : r.Gives R (get >>= f) s := by
  unfold Gives
  rw [run_bind, run_get]
  exact h

theorem Gives.bind {f : α → SessionM β} (h : r.Gives R step s)
    (hf : ∀ a s', r.Sound s' → s'.sources.Grows s.sources → R s'.sources a → r.Gives S (f a) s') :
    r.Gives S (step >>= f) s := by
  intro b s'' hrun
  rw [run_bind] at hrun
  rcases houtcome : step.run.run s with ⟨e | a, s'⟩
  · rw [houtcome] at hrun
    exact nomatch hrun
  · rw [houtcome] at hrun
    obtain ⟨ha, hsound, hgrows⟩ := h a s' houtcome
    obtain ⟨hb, hsound', hgrows'⟩ := hf a s' hsound hgrows ha b s'' hrun
    exact ⟨hb, hsound', hgrows.trans hgrows'⟩

end Steps

section Files

variable {s : Session}

/-- A file that was read is registered with its text. -/
theorem Sound.read (hs : r.Sound s) {text : String} {tree : Root} (htext : r.loader.read path = .ok text)
    (htree : parse ⟨s.sources.next⟩ text = .ok tree) :
    r.TreeOf (s.sources.addWrapping path (some text)).2.Keeps path { tree with path := some path } ∧
      r.Sound { s with
        sources := (s.sources.addWrapping path (some text)).2
        parsed := if r.limits.cache then (path, { tree with path := some path }) :: s.parsed else s.parsed } := by
  have hroot : r.TreeOf (s.sources.addWrapping path (some text)).2.Keeps path { tree with path := some path } :=
    ⟨text, _, tree, htext, keeps_add _ _ _, htree, rfl⟩
  have hold : ∀ entry ∈ s.parsed, r.TreeOf (s.sources.addWrapping path (some text)).2.Keeps entry.1 entry.2 :=
    fun entry hentry => (hs.remembers entry hentry).imp (hs.counted.grows path (some text))
  refine ⟨hroot, hs.counted.add _ _, ?_⟩
  show ∀ entry ∈ (if r.limits.cache then _ else _), _
  split
  · exact List.forall_mem_cons.mpr ⟨hroot, hold⟩
  · exact hold

theorem gives_load (hs : r.Sound s) (path : Path) :
    r.Gives (fun map root => r.TreeOf map.Keeps path root) (r.load path) s := by
  intro root s' hrun
  cases hlookup : s.parsed.lookup path with
  | some known =>
    rw [run_load_of_lookup hlookup] at hrun
    obtain ⟨⟨⟩, rfl⟩ := Prod.mk.inj hrun
    exact ⟨hs.remembers (path, root) (mem_of_lookup hlookup), hs, .refl _⟩
  | none =>
    rw [run_load_of_read hlookup] at hrun
    cases htext : r.loader.read path with
    | error e =>
      simp only [htext] at hrun
      exact nomatch hrun
    | ok text =>
      cases htree : parse ⟨s.sources.next⟩ text with
      | error e =>
        simp only [htext, htree] at hrun
        exact nomatch hrun
      | ok tree =>
        simp only [htext, htree] at hrun
        obtain ⟨⟨⟩, rfl⟩ := Prod.mk.inj hrun
        obtain ⟨hroot, hsound⟩ := hs.read htext htree
        exact ⟨hroot, hsound, hs.counted.grows path (some text)⟩

theorem gives_locate (hs : r.Sound s) (label : Path) (stack : List Path) (source : Source) :
    r.Gives (fun _ target => r.Locates stack source target) (r.locate label stack source) s := by
  intro target s' hrun
  obtain ⟨hlocates, rfl⟩ := locates_of_run hrun
  exact ⟨hlocates, ⟨hs.counted, hs.remembers⟩, .refl _⟩

end Files

/-! ## Inclusions -/

section Inclusions

variable {s : Session} {Q : SourceMap → Source → List Stmt → Prop} {included : Source → SessionM (List Stmt)}
  {emptied : Choice → SessionM (List Stmt)}

mutual

theorem gives_splice (hmono : ∀ map later, later.Grows map → ∀ src out, Q map src out → Q later src out)
    (hincluded : ∀ src s, r.Sound s → r.Gives (Q · src) (included src) s)
    (hemptied : ∀ c s, r.Gives (fun _ _ => False) (emptied c) s) : ∀ (t : Stmt) (s : Session), r.Sound s →
    r.Gives (fun map => Stmt.Replaces (Q map) t) (Stmt.splice included emptied t) s
  | .source src, s, hs => hincluded src s hs
  | .menu _ body, s, hs => (gives_spliceAll hmono hincluded hemptied body s hs).bind fun inner _ hs _ hinner =>
    gives_pure hs ⟨inner, hinner, rfl⟩
  | .ifBlock _ body _, s, hs => (gives_spliceAll hmono hincluded hemptied body s hs).bind
    fun inner _ hs _ hinner => gives_pure hs ⟨inner, hinner, rfl⟩
  | .choice c, s, hs => by
    rw [Stmt.splice]
    split
    · exact fun a s' hrun => (hemptied c s a s' hrun).1.elim
    · exact gives_pure hs rfl
  | .config _, _, hs | .menuconfig _, _, hs | .comment _, _, hs => gives_pure hs rfl

/-- Splicing a block replaces its inclusions by what they give. -/
theorem gives_spliceAll (hmono : ∀ map later, later.Grows map → ∀ src out, Q map src out → Q later src out)
    (hincluded : ∀ src s, r.Sound s → r.Gives (Q · src) (included src) s)
    (hemptied : ∀ c s, r.Gives (fun _ _ => False) (emptied c) s) : ∀ (block : List Stmt) (s : Session),
    r.Sound s → r.Gives (fun map => Stmt.ReplacesAll (Q map) block) (Stmt.spliceAll included emptied block) s
  | [], _, hs => gives_pure hs rfl
  | t :: ts, s, hs => (gives_splice hmono hincluded hemptied t s hs).bind fun first s hs _ hfirst =>
    (gives_spliceAll hmono hincluded hemptied ts s hs).bind fun more _ hs hgrows hmore =>
      -- What the first statement became stays so in the files that are registered later.
      gives_pure hs ⟨first, more, hfirst.imp (hmono _ _ hgrows), hmore, rfl⟩

end

theorem gives_refuseChoice (label : Path) (stack : List Path) (c : Choice) (s : Session) :
    r.Gives (fun _ _ => False) (refuseChoice label stack c) s :=
  gives_get_bind gives_throw

/-- An inclusion gives the statements of its file. -/
theorem gives_includeSource (label : Path) (room : Nat) (stack : List Path) (source : Source) (hs : r.Sound s) :
    r.Gives (fun map => r.Expands map.Keeps room stack source) (r.includeSource label room stack source) s := by
  induction room generalizing stack source s with
  | zero =>
    refine (gives_locate hs label stack source).bind fun target s hs _ htarget => ?_
    cases target with
    | none => exact gives_pure hs ⟨htarget, rfl⟩
    | some path => exact gives_throw
  | succ room ih =>
    refine (gives_locate hs label stack source).bind fun target s hs _ htarget => ?_
    cases target with
    | none => exact gives_pure hs (.inl ⟨htarget, rfl⟩)
    | some path =>
      refine (gives_load hs path).bind fun root s hs _ hroot => ?_
      intro out s' hrun
      obtain ⟨hout, hsound, hgrows⟩ := gives_spliceAll (Q := fun map => r.Expands map.Keeps room (path :: stack))
        (fun _ _ hlater _ _ h => h.imp hlater) (fun src s hs => ih (path :: stack) src hs)
        (gives_refuseChoice label (path :: stack)) root.statements s hs out s' hrun
      exact ⟨.inr ⟨path, root, htarget, hroot.imp hgrows, hout⟩, hsound, hgrows⟩

end Inclusions

/-! ## Nodes -/

/-- An anchor is that of a node in the tree of a file, whose number is that of the anchor. -/
def AnchorOf (r : Resolver) (has : FileId → SourceFile → Prop) (a : Anchor) : Prop :=
  ∃ path text tree, (∃ asked, r.loader.canonicalize asked = .ok path) ∧ r.loader.read path = .ok text ∧
    has a.span.file ⟨path, some text⟩ ∧ parse a.span.file text = .ok tree ∧ a ∈ tree.anchors

theorem TreeOf.anchorOf (h : r.TreeOf has path root) {asked : Path}
    (hpath : r.loader.canonicalize asked = .ok path) : ∀ a ∈ root.anchors, r.AnchorOf has a := by
  obtain ⟨text, id, tree, htext, hhas, htree, rfl⟩ := h
  intro a ha
  obtain ⟨piece, ⟨before, after, -, hspan⟩, -⟩ := holds_of_parse htree a ha
  obtain rfl : a.span.file = id := congrArg Span.file hspan
  exact ⟨path, text, tree, ⟨asked, hpath⟩, htext, hhas, htree, ha⟩

section Anchors

variable {P : Anchor → Prop} {Q : Source → List Stmt → Prop}

mutual

theorem forall_anchors_of_replaces (hQ : ∀ src out, Q src out → ∀ a ∈ Stmt.anchorsAll out, P a) :
    ∀ {s : Stmt} {out : List Stmt}, Stmt.Replaces Q s out → (∀ a ∈ s.anchors, P a) →
      ∀ a ∈ Stmt.anchorsAll out, P a
  | .source _, _, h, _ => hQ _ _ h
  | .menu head _, _, ⟨inner, hinner, rfl⟩, hs => by
    obtain ⟨hhead, hbody⟩ := List.forall_mem_append.mp hs
    have hall := forall_anchors_of_replacesAll hQ hinner hbody
    simpa [Stmt.anchorsAll, Stmt.anchors] using List.forall_mem_append.mpr ⟨hhead, hall⟩
  | .ifBlock condition _ span, _, ⟨inner, hinner, rfl⟩, hs => by
    obtain ⟨hhead, hbody⟩ := List.forall_mem_append.mp hs
    have hall := forall_anchors_of_replacesAll hQ hinner hbody
    show ∀ a ∈ (span.anchor :: condition.anchors ++ Stmt.anchorsAll inner) ++ [], P a
    rw [List.append_nil]
    exact List.forall_mem_append.mpr ⟨hhead, hall⟩
  | .config _, _, rfl, hs | .menuconfig _, _, rfl, hs | .choice _, _, rfl, hs | .comment _, _, rfl, hs => by
    simpa [Stmt.anchorsAll] using hs

/-- What holds of the anchors of a block and of those of what replaces its inclusions holds of all anchors. -/
theorem forall_anchors_of_replacesAll (hQ : ∀ src out, Q src out → ∀ a ∈ Stmt.anchorsAll out, P a) :
    ∀ {block out : List Stmt}, Stmt.ReplacesAll Q block out → (∀ a ∈ Stmt.anchorsAll block, P a) →
      ∀ a ∈ Stmt.anchorsAll out, P a
  | [], _, rfl, _ => List.forall_mem_nil _
  | _ :: _, _, ⟨first, more, hfirst, hmore, rfl⟩, hs => by
    obtain ⟨hs, hss⟩ := List.forall_mem_append.mp hs
    rw [Stmt.anchorsAll_append]
    exact List.forall_mem_append.mpr
      ⟨forall_anchors_of_replaces hQ hfirst hs, forall_anchors_of_replacesAll hQ hmore hss⟩

end

end Anchors

theorem Expands.anchorOf {room : Nat} {stack : List Path} {source : Source} {out : List Stmt}
    (h : r.Expands has room stack source out) : ∀ a ∈ Stmt.anchorsAll out, r.AnchorOf has a := by
  induction room generalizing stack source out with
  | zero =>
    obtain ⟨-, rfl⟩ := h
    exact List.forall_mem_nil _
  | succ room ih =>
    rcases h with ⟨-, rfl⟩ | ⟨path, root, hlocates, htree, hout⟩
    · exact List.forall_mem_nil _
    · refine forall_anchors_of_replacesAll (fun _ _ h => ih h) hout fun a ha => ?_
      exact htree.anchorOf hlocates.1 a (List.mem_append_right _ ha)

/-! ## Whole configurations -/

/-- A configuration is made of the trees of its files: that of the root, in which every inclusion is replaced by
the statements of the file that it leads to. -/
def MadeOf (r : Resolver) (has : FileId → SourceFile → Prop) (path : Path) (tree : ResolvedTree) : Prop :=
  ∃ file root, r.loader.canonicalize path = .ok file ∧ r.TreeOf has file root ∧ tree.root = root.file ∧
    tree.mainMenu = root.mainMenu ∧
    Stmt.ReplacesAll (r.Expands has (r.limits.maxDepth - 1) [file]) root.statements tree.statements

theorem MadeOf.imp {tree : ResolvedTree} (h : r.MadeOf has path tree)
    (himp : ∀ id file, has id file → has' id file) : r.MadeOf has' path tree := by
  obtain ⟨file, root, hpath, hroot, hid, htitle, hout⟩ := h
  exact ⟨file, root, hpath, hroot.imp himp, hid, htitle, hout.imp fun _ _ h => h.imp himp⟩

theorem MadeOf.anchorOf {tree : ResolvedTree} (h : r.MadeOf has path tree) :
    ∀ a ∈ tree.toRoot.anchors, r.AnchorOf has a := by
  obtain ⟨file, root, hpath, hroot, -, htitle, hout⟩ := h
  obtain ⟨hfirst, hmore⟩ := List.forall_mem_append.mp (hroot.anchorOf hpath)
  refine List.forall_mem_append.mpr ⟨?_, forall_anchors_of_replacesAll (fun _ _ h => h.anchorOf) hout hmore⟩
  show ∀ a ∈ tree.mainMenu.toList.flatMap MainMenu.anchors, _
  rw [htitle]
  exact hfirst

theorem gives_fileSession (r : Resolver) (path : Path) :
    r.Gives (fun map tree => tree.sources = map ∧ r.MadeOf map.Keeps path tree) (r.fileSession path) .start := by
  unfold fileSession
  cases hpath : r.loader.canonicalize path with
  | error e => exact gives_throw
  | ok file =>
    refine (gives_load r.sound_start file).bind fun root s hs _ hroot => ?_
    have hblock : r.Gives (fun map => Stmt.ReplacesAll (r.Expands map.Keeps (r.limits.maxDepth - 1) [file])
        root.statements) (r.expandBlock path [file] root.statements) s :=
      gives_spliceAll (Q := fun map => r.Expands map.Keeps (r.limits.maxDepth - 1) [file])
        (fun _ _ hlater _ _ h => h.imp hlater) (fun src s hs => gives_includeSource path _ [file] src hs)
        (gives_refuseChoice path [file]) root.statements s hs
    refine hblock.bind fun block s hs hgrows hout => gives_get_bind ?_
    exact gives_pure hs ⟨rfl, file, root, hpath, hroot.imp hgrows, rfl, rfl, hout⟩

/-- **Provenance**: a configuration is made of the trees of its files, each read under a number that stands for
the canonical path and the text of the file; so every node has the number of the file whose tree it belongs to,
and its span is that of a piece of the text of that file, with the position counted there; names and literals
are what stands there. Every load registers a file, so there were fewer than 2 ^ 32 loads if there are fewer
files. -/
theorem resolveFile_provenance (r : Resolver) (path : Path) (tree : ResolvedTree)
    (h : r.resolveFile path = .ok tree) (hsize : tree.sources.size < UInt32.size) :
    r.MadeOf tree.sources.Registers path tree ∧ ∀ a ∈ tree.toRoot.anchors, ∃ file text t,
      (∃ asked, r.loader.canonicalize asked = .ok file) ∧ r.loader.read file = .ok text ∧
      tree.sources.get? a.span.file = some ⟨file, some text⟩ ∧
      parse a.span.file text = .ok t ∧ a ∈ t.anchors ∧
      a.span.start ≤ a.span.stop ∧ a.span.stop ≤ Text.byteLength text.toList ∧
      a.Holds a.span.file text.toList := by
  have hgives := gives_fileSession r path tree
  unfold resolveFile at h
  generalize (r.fileSession path).run.run .start = outcome at h hgives
  obtain ⟨result, s⟩ := outcome
  obtain rfl : result = .ok tree := h
  obtain ⟨⟨hsources, hmade⟩, -, -⟩ := hgives s rfl
  have hregisters : r.MadeOf tree.sources.Registers path tree :=
    hmade.imp fun id file hkeeps => hsources ▸ get?_of_keeps hkeeps (hsources ▸ hsize)
  refine ⟨hregisters, fun a ha => ?_⟩
  obtain ⟨file, text, t, hpath, htext, hfile, htree, hmem⟩ := hregisters.anchorOf a ha
  obtain ⟨piece, hcovers, hkept⟩ := holds_of_parse htree a hmem
  exact ⟨file, text, t, hpath, htext, hfile, htree, hmem, hcovers.start_le_stop, hcovers.stop_le, piece, hcovers,
    hkept⟩

/-- A file that is included twice. -/
def twiceTree : MemoryTree :=
  ⟨[(⟨"/Kconfig"⟩, "mainmenu \"T\"\nsource \"part\"\nmenu \"M\"\nrsource \"./part\"\nendmenu\n"),
    (⟨"/part"⟩, "config A\n\tbool \"é\" if B && (C)\n")]⟩

/-- A session over the files of `twiceTree` that reads the file twice. -/
def twice : Resolver :=
  { loader := twiceTree.loader, expandPath := id, base := ⟨"/"⟩, limits := { cache := false } }

theorem twice_provenance : ∃ tree, twice.resolveFile ⟨"Kconfig"⟩ = .ok tree ∧ tree.sources.size < UInt32.size ∧
    twice.MadeOf tree.sources.Registers ⟨"Kconfig"⟩ tree ∧ ∀ a ∈ tree.toRoot.anchors, ∃ file text t,
      (∃ asked, twice.loader.canonicalize asked = .ok file) ∧ twice.loader.read file = .ok text ∧
      tree.sources.get? a.span.file = some ⟨file, some text⟩ ∧
      parse a.span.file text = .ok t ∧ a ∈ t.anchors ∧
      a.span.start ≤ a.span.stop ∧ a.span.stop ≤ Text.byteLength text.toList ∧
      a.Holds a.span.file text.toList := by
  have hsize : (twice.resolveFile ⟨"Kconfig"⟩).toOption.map (·.sources.size) = some 3 := by decide +kernel
  cases htree : twice.resolveFile ⟨"Kconfig"⟩ with
  | error e =>
    rw [htree] at hsize
    exact absurd hsize (Option.some_ne_none _).symm
  | ok tree =>
    rw [htree] at hsize
    have hthree : tree.sources.size < UInt32.size := by
      rw [show tree.sources.size = 3 from Option.some.inj hsize]
      decide
    exact ⟨tree, rfl, hthree, resolveFile_provenance twice ⟨"Kconfig"⟩ tree htree hthree⟩

end Resolver

end KconfigLang
