import KconfigLang.Proofs.Files.MemoryTree
import KconfigLang.Proofs.Grammar.Positions
import KconfigLang.Proofs.Inclusion.Readings
import KconfigLang.Proofs.Inclusion.Yields
import Mathlib.Data.List.Perm.Subperm

/-!
# The cache

Two sessions over the same files, one that remembers the trees of files and one that reads every file again,
go the same way. They number the files differently, so they agree up to the numbers in spans. The one that reads
every file again comes to the last number first.

- `Resolver.Paired`: what holds of the two sessions at every point.
- `Resolver.AgreesAt`: steps of the two that fail alike or yield related results.
- `SameBlock`: statements that differ in file numbers only.
- `Resolver.agrees_load`, `Resolver.agrees_includeSource`: files and inclusions.
- `Resolver.resolveFile_cache`: whole configurations.
- `Resolver.size_le_of_memoryTree`: with the cache the numbers last for all files in memory.
-/

namespace KconfigLang

namespace SourceMap

/-- Every number of a map stands for the same paths in a later one. -/
def Extends (later map : SourceMap) : Prop :=
  ∀ id path, map.Names id path → later.Names id path

theorem Extends.refl (map : SourceMap) : map.Extends map :=
  fun _ _ h => h

theorem Extends.trans {first second third : SourceMap} (h : second.Extends first) (h' : third.Extends second) :
    third.Extends first :=
  fun id path hnames => h' id path (h id path hnames)

theorem Fresh.extends {map : SourceMap} (h : map.Fresh) (path : Path) (text : Option String) :
    (map.addWrapping path text).2.Extends map :=
  fun _ _ hnames => hnames.add h path text

/-- Two numbers that stand for the same path in their maps. -/
def SameFile (map map' : SourceMap) (id id' : FileId) : Prop :=
  ∃ path, map.path? id = some path ∧ map'.path? id' = some path

/-- The same of the maps of sessions that go on, unless the last number comes into use. -/
def SameNamed (map map' : SourceMap) (id id' : FileId) : Prop :=
  ∃ path, map.Names id path ∧ map'.Names id' path

theorem SameNamed.mono {map map' later later' : SourceMap} {id id' : FileId} (h : SameNamed map map' id id')
    (hlater : later.Extends map) (hlater' : later'.Extends map') : SameNamed later later' id id' := by
  obtain ⟨path, hpath, hpath'⟩ := h
  exact ⟨path, hlater id path hpath, hlater' id' path hpath'⟩

theorem SameNamed.sameFile {map map' : SourceMap} {id id' : FileId} (h : SameNamed map map' id id')
    (hlast : map.overflowed = false) (hlast' : map'.overflowed = false) : SameFile map map' id id' := by
  obtain ⟨path, hpath, hpath'⟩ := h
  exact ⟨path, path?_of_names hpath hlast, path?_of_names hpath' hlast'⟩

/-- A map has no more files than another one, unless the last number is in use in the other one. -/
def Fewer (map map' : SourceMap) : Prop :=
  map'.overflowed = true ∨ map.size ≤ map'.size

theorem Fewer.add_right {map map' : SourceMap} (h : Fewer map map') (path : Path) (text : Option String) :
    Fewer map (map'.addWrapping path text).2 :=
  h.imp (fun hlast => (overflowed_add_iff map' path text).mpr (.inr hlast))
    fun hsize => Nat.le_trans hsize (size_le_size_add map' path text)

theorem Fewer.add {map map' : SourceMap} (h : Fewer map map') (hfresh : map'.Fresh) (path : Path)
    (text : Option String) : Fewer (map.addWrapping path text).2 (map'.addWrapping path text).2 := by
  rcases h with hlast | hsize
  · exact .inl ((overflowed_add_iff map' path text).mpr (.inr hlast))
  · rcases hfresh with hbelow | ⟨hfull, -⟩
    · refine .inr ?_
      rw [size_add hbelow]
      exact Nat.le_trans (length_put_le _ _ _) (Nat.succ_le_succ hsize)
    · exact .inl ((overflowed_add_iff map' path text).mpr (.inl hfull))

/-- The last number comes into use in the larger map first. -/
theorem Fewer.overflowed {map map' : SourceMap} {first : Nat} (h : Fewer map map') (hcounted : map.Counted first)
    (hcounted' : map'.Counted first) (hlast : map'.overflowed = false) : map.overflowed = false := by
  have hsize : map.size ≤ map'.size := h.resolve_left fun hover => Bool.false_ne_true (hlast.symm.trans hover)
  refine Bool.eq_false_iff.mpr fun hover => Bool.eq_false_iff.mp hlast (hcounted'.overflowed_iff.mpr ?_)
  exact Nat.le_trans (hcounted.overflowed_iff.mp hover) (Nat.add_le_add_left hsize first)

end SourceMap

open SourceMap

/-- Statements that differ in file numbers only, and these are the `same`. -/
structure SameBlock (same : FileId → FileId → Prop) (block block' : List Stmt) : Prop where
  unnumbered : Stmt.mapSpanAll (Span.inFile .root) block = Stmt.mapSpanAll (Span.inFile .root) block'
  files : List.Forall₂ (fun s t : Span => same s.file t.file) (Stmt.spansAll block) (Stmt.spansAll block')

namespace SameBlock

variable {same same' : FileId → FileId → Prop} {block block' more more' : List Stmt}

theorem nil : SameBlock same [] [] :=
  ⟨rfl, .nil⟩

theorem append (h : SameBlock same block block') (hmore : SameBlock same more more') :
    SameBlock same (block ++ more) (block' ++ more') where
  unnumbered := by
    rw [Stmt.mapSpanAll_eq_map, Stmt.mapSpanAll_eq_map, List.map_append, List.map_append,
      ← Stmt.mapSpanAll_eq_map, ← Stmt.mapSpanAll_eq_map, ← Stmt.mapSpanAll_eq_map, ← Stmt.mapSpanAll_eq_map,
      h.unnumbered, hmore.unnumbered]
  files := by
    rw [Stmt.spansAll_append, Stmt.spansAll_append]
    exact List.rel_append h.files hmore.files

theorem mono (h : SameBlock same block block') (hsame : ∀ id id', same id id' → same' id id') :
    SameBlock same' block block' :=
  ⟨h.unnumbered, h.files.imp fun _ _ hid => hsame _ _ hid⟩

/-- A menu around such statements. -/
theorem menu {head : Menu} {id : FileId} (h : SameBlock same block block')
    (hhead : List.Forall₂ (fun s t : Span => same s.file t.file) head.spans
      (head.spans.map (Span.inFile id))) :
    SameBlock same [.menu head block] [.menu (head.mapSpan (Span.inFile id)) block'] where
  unnumbered := by
    simp only [Stmt.mapSpanAll, Stmt.mapSpan, Menu.mapSpan_mapSpan, h.unnumbered]
    rfl
  files := by
    simp only [Stmt.spansAll, Stmt.spans, Menu.spans_mapSpan, List.append_nil]
    exact List.rel_append hhead h.files

/-- A conditional block around such statements. -/
theorem ifBlock {condition : Expr} {span : Span} {id : FileId} (h : SameBlock same block block')
    (hhead : List.Forall₂ (fun s t : Span => same s.file t.file) (span :: condition.spans)
      ((span :: condition.spans).map (Span.inFile id))) :
    SameBlock same [.ifBlock condition block span]
      [.ifBlock (condition.mapSpan (Span.inFile id)) block' (span.inFile id)] where
  unnumbered := by
    simp only [Stmt.mapSpanAll, Stmt.mapSpan, Expr.mapSpan_mapSpan, h.unnumbered]
    rfl
  files := by
    simp only [Stmt.spansAll, Stmt.spans, Expr.spans_mapSpan, List.append_nil]
    exact List.rel_append hhead h.files

end SameBlock

/-- Spans of one file and the same bytes of another one. -/
theorem forall₂_inFile {same : FileId → FileId → Prop} {id id' : FileId} (h : same id id')
    {spans : List Span} (hspans : ∀ s ∈ spans, s.file = id) :
    List.Forall₂ (fun s t : Span => same s.file t.file) spans (spans.map (Span.inFile id')) := by
  rw [List.forall₂_map_right_iff, List.forall₂_same]
  intro s hs
  rw [hspans s hs]
  exact h

/-- Statements whose file numbers stand for the same paths in the maps of sessions that go on. -/
def NamedBlock (map map' : SourceMap) : List Stmt → List Stmt → Prop :=
  SameBlock (SameNamed map map')

theorem NamedBlock.mono {map map' later later' : SourceMap} {block block' : List Stmt}
    (h : NamedBlock map map' block block') (hlater : later.Extends map) (hlater' : later'.Extends map') :
    NamedBlock later later' block block' :=
  SameBlock.mono h fun _ _ hid => hid.mono hlater hlater'

namespace Resolver

/-- The same session with the cache on or off. -/
def withCache (r : Resolver) (cache : Bool) : Resolver :=
  { r with limits := { r.limits with cache } }

/-- A session with the cache and one without it that have come equally far. -/
structure Paired (r : Resolver) (s u : Session) : Prop where
  expansions : s.expansions = u.expansions
  /-- The session without the cache remembers nothing. -/
  forgets : u.parsed = []
  /-- The session with the cache remembers the trees of the files that it has registered. -/
  remembers : ∀ entry ∈ s.parsed, ∃ text id tree, r.loader.read entry.1 = .ok text ∧
    parse id text = .ok tree ∧ entry.2 = { tree with path := some entry.1 } ∧ s.sources.Names id entry.1
  registered : ∀ path ∈ s.sources.paths, ∃ root, (path, root) ∈ s.parsed
  once : s.sources.paths.Nodup
  fewer : Fewer s.sources u.sources
  fresh : s.sources.Fresh
  fresh' : u.sources.Fresh

theorem paired_start (r : Resolver) : r.Paired .start .start where
  expansions := rfl
  forgets := rfl
  remembers := List.forall_mem_nil _
  registered := List.forall_mem_nil _
  once := List.nodup_nil
  fewer := .inr (Nat.le_refl _)
  fresh := fresh_empty
  fresh' := fresh_empty

/-! ## Steps of the two sessions -/

section Steps

variable {α β : Type} {r : Resolver}

/-- Steps of the two sessions that fail with the same error, file numbers apart, or yield results that `R`
relates; the sessions then have again come equally far. -/
def AgreesAt (r : Resolver) (R : SourceMap → SourceMap → α → α → Prop) (step step' : SessionM α)
    (s u : Session) : Prop :=
  match step.run.run s, step'.run.run u with
  | (.ok a, s'), (.ok b, u') => R s'.sources u'.sources a b ∧ r.Paired s' u' ∧
    s'.sources.Extends s.sources ∧ u'.sources.Extends u.sources
  | (.error e, s'), (.error e', u') =>
    e.mapSpan (Span.inFile .root) = e'.mapSpan (Span.inFile .root) ∧ s'.sources.paths.Nodup ∧
      Fewer s'.sources u'.sources
  | _, _ => False

variable {R : SourceMap → SourceMap → α → α → Prop} {S : SourceMap → SourceMap → β → β → Prop}
  {step step' : SessionM α} {s u : Session}

/-- Whether or not they fail, the session with the cache registers every path once, and fewer files. -/
theorem AgreesAt.once_fewer (h : AgreesAt r R step step' s u) : (step.run.run s).2.sources.paths.Nodup ∧
    Fewer (step.run.run s).2.sources (step'.run.run u).2.sources := by
  unfold AgreesAt at h
  generalize step.run.run s = outcome at h ⊢
  generalize step'.run.run u = outcome' at h ⊢
  rcases outcome with ⟨e | a, s'⟩ <;> rcases outcome' with ⟨e' | b, u'⟩
  · exact h.2
  · exact h.elim
  · exact h.elim
  · exact ⟨h.2.1.once, h.2.1.fewer⟩

theorem agrees_pure {a b : α} (hpaired : r.Paired s u) (h : R s.sources u.sources a b) :
    AgreesAt r R (pure a) (pure b) s u :=
  ⟨h, hpaired, .refl _, .refl _⟩

theorem agrees_throw {e e' : ResolveError} (hpaired : r.Paired s u)
    (h : e.mapSpan (Span.inFile .root) = e'.mapSpan (Span.inFile .root)) :
    AgreesAt r R (throw e) (throw e') s u :=
  ⟨h, hpaired.once, hpaired.fewer⟩

theorem agrees_get_bind {f g : Session → SessionM α} (h : AgreesAt r R (f s) (g u) s u) :
    AgreesAt r R (get >>= f) (get >>= g) s u := by
  unfold AgreesAt
  rw [run_bind, run_bind, run_get, run_get]
  exact h

theorem AgreesAt.bind {f g : α → SessionM β} (h : AgreesAt r R step step' s u)
    (hf : ∀ a b s' u', r.Paired s' u' → s'.sources.Extends s.sources → u'.sources.Extends u.sources →
      R s'.sources u'.sources a b → AgreesAt r S (f a) (g b) s' u') :
    AgreesAt r S (step >>= f) (step' >>= g) s u := by
  unfold AgreesAt at h ⊢
  rw [run_bind, run_bind]
  generalize step.run.run s = outcome at h ⊢
  generalize step'.run.run u = outcome' at h ⊢
  rcases outcome with ⟨e | a, s'⟩ <;> rcases outcome' with ⟨e' | b, u'⟩
  · exact h
  · exact h.elim
  · exact h.elim
  · obtain ⟨hab, hpaired, hs, hu⟩ := h
    have hmore := hf a b s' u' hpaired hs hu hab
    unfold AgreesAt at hmore
    simp only
    generalize (f a).run.run s' = outcome at hmore ⊢
    generalize (g b).run.run u' = outcome' at hmore ⊢
    rcases outcome with ⟨e | c, s''⟩ <;> rcases outcome' with ⟨e' | d, u''⟩
    · exact hmore
    · exact hmore
    · exact hmore
    · obtain ⟨hcd, hpaired', hs', hu'⟩ := hmore
      exact ⟨hcd, hpaired', hs.trans hs', hu.trans hu'⟩

end Steps

/-! ## Files -/

section Files

variable {r : Resolver} {s u : Session} {path : Path}

/-- Two trees of a file that were read under numbers of that file. -/
def SameLoaded (r : Resolver) (path : Path) (map map' : SourceMap) (root root' : Root) : Prop :=
  ∃ text id id' tree, r.loader.read path = .ok text ∧ parse id text = .ok tree ∧
    root = { tree with path := some path } ∧ root' = { tree.inFile id' with path := some path } ∧
    SameNamed map map' id id'

theorem SameLoaded.mono {map map' later later' : SourceMap} {root root' : Root}
    (h : r.SameLoaded path map map' root root') (hlater : later.Extends map) (hlater' : later'.Extends map') :
    r.SameLoaded path later later' root root' := by
  obtain ⟨text, id, id', tree, htext, htree, hroot, hroot', hfile⟩ := h
  exact ⟨text, id, id', tree, htext, htree, hroot, hroot', hfile.mono hlater hlater'⟩

/-- The session without the cache reads a file once more. -/
theorem Paired.reread (h : r.Paired s u) (path : Path) (text : Option String) :
    r.Paired s { u with sources := (u.sources.addWrapping path text).2 } where
  expansions := h.expansions
  forgets := h.forgets
  remembers := h.remembers
  registered := h.registered
  once := h.once
  fewer := h.fewer.add_right path text
  fresh := h.fresh
  fresh' := h.fresh'.add path text

theorem Paired.not_mem_paths (h : r.Paired s u) (hlookup : s.parsed.lookup path = none) :
    path ∉ s.sources.paths := by
  intro hmem
  obtain ⟨root, hroot⟩ := h.registered path hmem
  exact absurd (List.lookup_eq_none_iff.mp hlookup _ hroot) (by simp)

/-- Both sessions read a file, for the one with the cache it is the first time. -/
theorem Paired.read (h : r.Paired s u) (hlookup : s.parsed.lookup path = none) {text : String} {tree : Root}
    (htext : r.loader.read path = .ok text) (htree : parse ⟨s.sources.next⟩ text = .ok tree) :
    r.Paired
      { s with
        sources := (s.sources.addWrapping path (some text)).2
        parsed := (path, { tree with path := some path }) :: s.parsed }
      { u with sources := (u.sources.addWrapping path (some text)).2 } where
  expansions := h.expansions
  forgets := h.forgets
  remembers := by
    refine List.forall_mem_cons.mpr
      ⟨⟨text, _, tree, htext, htree, rfl, names_add _ _ _⟩, fun entry hentry => ?_⟩
    obtain ⟨text', id, tree', htext', htree', hroot, hnames⟩ := h.remembers entry hentry
    exact ⟨text', id, tree', htext', htree', hroot, hnames.add h.fresh _ _⟩
  registered := by
    intro path' hpath'
    rcases mem_paths_add hpath' with rfl | hold
    · exact ⟨_, List.mem_cons_self⟩
    · obtain ⟨root, hroot⟩ := h.registered path' hold
      exact ⟨root, List.mem_cons_of_mem _ hroot⟩
  once := nodup_paths_add h.once (h.not_mem_paths hlookup)
  fewer := h.fewer.add h.fresh' _ _
  fresh := h.fresh.add _ _
  fresh' := h.fresh'.add _ _

theorem agrees_load (hpaired : r.Paired s u) (path : Path) :
    AgreesAt r (r.SameLoaded path) ((r.withCache true).load path) ((r.withCache false).load path) s u := by
  have hforgets : u.parsed.lookup path = none := by
    rw [hpaired.forgets]
    rfl
  unfold AgreesAt
  rw [run_load_of_read (r := r.withCache false) hforgets]
  cases hlookup : s.parsed.lookup path with
  | some root =>
    -- The tree was read before under another number, so reading it again cannot fail.
    obtain ⟨text, id, tree, htext, htree, hroot, hnames⟩ :=
      hpaired.remembers (path, root) (mem_of_lookup hlookup)
    have hagain : parse ⟨u.sources.next⟩ text = .ok (tree.inFile ⟨u.sources.next⟩) := by
      rw [parse_inFile id, htree]
      rfl
    rw [run_load_of_lookup (r := r.withCache true) hlookup]
    simp only [show (r.withCache false).loader.read path = .ok text from htext, hagain]
    exact ⟨⟨text, id, _, tree, htext, htree, hroot, rfl, path, hnames, names_add _ _ _⟩,
      hpaired.reread path (some text), .refl _, hpaired.fresh'.extends _ _⟩
  | none =>
    rw [run_load_of_read (r := r.withCache true) hlookup]
    simp only [show ∀ cache, (r.withCache cache).loader = r.loader from fun _ => rfl]
    cases htext : r.loader.read path with
    | error e => exact ⟨rfl, hpaired.once, hpaired.fewer⟩
    | ok text =>
      simp only
      rw [parse_inFile ⟨s.sources.next⟩ ⟨u.sources.next⟩]
      cases htree : parse ⟨s.sources.next⟩ text with
      | error e =>
        refine ⟨?_, nodup_paths_add hpaired.once (hpaired.not_mem_paths hlookup),
          hpaired.fewer.add hpaired.fresh' _ _⟩
        show ResolveError.load (.text path _) = .load (.text path _)
        rw [SyntaxError.mapSpan_mapSpan]
        rfl
      | ok tree =>
        exact ⟨⟨text, _, _, tree, htext, htree, rfl, rfl, path, names_add _ _ _, names_add _ _ _⟩,
          hpaired.read hlookup htext htree, hpaired.fresh.extends _ _, hpaired.fresh'.extends _ _⟩

end Files

/-! ## Inclusions -/

section Inclusions

variable {r : Resolver} {s u : Session}

/-- An inclusion leads to the same file in both sessions. -/
theorem agrees_locate (hpaired : r.Paired s u) (label : Path) (stack : List Path) (source : Source)
    (id : FileId) :
    AgreesAt r (fun _ _ a b => a = b) (r.locate label stack source)
      (r.locate label stack (source.mapSpan (Span.inFile id))) s u := by
  have hcounted : r.Paired { s with expansions := u.expansions + 1 } { u with expansions := u.expansions + 1 } :=
    { hpaired with expansions := rfl }
  unfold AgreesAt
  rw [run_locate, run_locate, hpaired.expansions]
  cases r.stop? u.expansions with
  | some e => exact ⟨rfl, hpaired.once, hpaired.fewer⟩
  | none =>
    unfold lead
    rw [target_congr (r := r) stack (show (source.mapSpan (Span.inFile id)).erase = source.erase from rfl),
      show (source.mapSpan (Span.inFile id)).kind = source.kind from rfl]
    cases r.loader.canonicalize (r.target stack source) with
    | ok path =>
      by_cases hmem : path ∈ stack
      · simp only [if_pos hmem]
        exact ⟨rfl, hpaired.once, hpaired.fewer⟩
      · simp only [if_neg hmem]
        exact ⟨trivial, hcounted, .refl _, .refl _⟩
    | error e =>
      by_cases hskip : source.kind.isOptional = true ∧ e.kind = .notFound
      · simp only [if_pos hskip]
        exact ⟨trivial, hcounted, .refl _, .refl _⟩
      · simp only [if_neg hskip]
        exact ⟨rfl, hpaired.once, hpaired.fewer⟩

/-- Statements of one file and the same statements of another one. -/
theorem sameBlock_inFile {same : FileId → FileId → Prop} {id id' : FileId} (h : same id id')
    {block : List Stmt} (hblock : ∀ s ∈ Stmt.spansAll block, s.file = id) :
    SameBlock same block (Stmt.mapSpanAll (Span.inFile id') block) where
  unnumbered := by
    rw [Stmt.mapSpanAll_mapSpanAll]
    rfl
  files := by
    rw [Stmt.spansAll_mapSpanAll]
    exact forall₂_inFile h hblock

/-- A single statement of such a block. -/
theorem sameBlock_statement {same : FileId → FileId → Prop} {id id' : FileId} (h : same id id')
    {t : Stmt} (ht : ∀ s ∈ t.spans, s.file = id) :
    SameBlock same [t] [t.mapSpan (Span.inFile id')] := by
  have hspans : ∀ s ∈ Stmt.spansAll [t], s.file = id := by simpa [Stmt.spansAll] using ht
  exact sameBlock_inFile h hspans

section Splice

variable {id id' : FileId} {included included' : Source → SessionM (List Stmt)}
  {emptied emptied' : Choice → SessionM (List Stmt)}

mutual

theorem agrees_splice (hincluded : ∀ source s u, r.Paired s u →
      AgreesAt r NamedBlock (included source) (included' (source.mapSpan (Span.inFile id'))) s u) :
    ∀ (t : Stmt) (s u : Session), r.Paired s u → SameNamed s.sources u.sources id id' →
      (∀ span ∈ t.spans, span.file = id) → (∀ c, .choice c ∈ Stmt.walk t → c.members ≠ []) →
      AgreesAt r NamedBlock (Stmt.splice included emptied t)
        (Stmt.splice included' emptied' (t.mapSpan (Span.inFile id'))) s u
  | .source source, s, u, hpaired, _, _, _ => hincluded source s u hpaired
  | .menu head body, s, u, hpaired, hfile, hspans, hchoice => by
    have hbody := agrees_spliceAll hincluded body s u hpaired hfile
      (fun span hspan => hspans span (List.mem_append_right _ hspan))
      fun c hc => hchoice c (List.mem_cons_of_mem _ hc)
    refine AgreesAt.bind hbody fun inner inner' s' u' hpaired' hs hu hinner => agrees_pure hpaired' ?_
    refine hinner.menu (forall₂_inFile (hfile.mono hs hu) fun span hspan => hspans span ?_)
    exact List.mem_append_left _ hspan
  | .ifBlock condition body span, s, u, hpaired, hfile, hspans, hchoice => by
    have hbody := agrees_spliceAll hincluded body s u hpaired hfile
      (fun span hspan => hspans span (List.mem_append_right _ hspan))
      fun c hc => hchoice c (List.mem_cons_of_mem _ hc)
    refine AgreesAt.bind hbody fun inner inner' s' u' hpaired' hs hu hinner => agrees_pure hpaired' ?_
    refine hinner.ifBlock (forall₂_inFile (hfile.mono hs hu) fun span hspan => hspans span ?_)
    exact List.mem_append_left _ hspan
  | .choice c, s, u, hpaired, hfile, hspans, hchoice => by
    have hmembers : c.members ≠ [] := hchoice c List.mem_cons_self
    rw [Stmt.splice, if_neg (by simpa using hmembers), Stmt.mapSpan, Stmt.splice,
      if_neg (by simpa [Choice.mapSpan] using hmembers)]
    exact agrees_pure hpaired (sameBlock_statement hfile hspans)
  | .config _, _, _, hpaired, hfile, hspans, _ => agrees_pure hpaired (sameBlock_statement hfile hspans)
  | .menuconfig _, _, _, hpaired, hfile, hspans, _ => agrees_pure hpaired (sameBlock_statement hfile hspans)
  | .comment _, _, _, hpaired, hfile, hspans, _ => agrees_pure hpaired (sameBlock_statement hfile hspans)

/-- Splicing a block of one file and the same block of another one gives statements that differ in file numbers
only. -/
theorem agrees_spliceAll (hincluded : ∀ source s u, r.Paired s u →
      AgreesAt r NamedBlock (included source) (included' (source.mapSpan (Span.inFile id'))) s u) :
    ∀ (block : List Stmt) (s u : Session), r.Paired s u → SameNamed s.sources u.sources id id' →
      (∀ span ∈ Stmt.spansAll block, span.file = id) →
      (∀ c, .choice c ∈ Stmt.walkAll block → c.members ≠ []) →
      AgreesAt r NamedBlock (Stmt.spliceAll included emptied block)
        (Stmt.spliceAll included' emptied' (Stmt.mapSpanAll (Span.inFile id') block)) s u
  | [], _, _, hpaired, _, _, _ => agrees_pure hpaired .nil
  | t :: ts, s, u, hpaired, hfile, hspans, hchoice => by
    refine AgreesAt.bind (agrees_splice hincluded t s u hpaired hfile
      (fun span hspan => hspans span (List.mem_append_left _ hspan))
      fun c hc => hchoice c (List.mem_append_left _ hc)) fun first first' s' u' hpaired' hs hu hfirst => ?_
    refine AgreesAt.bind (agrees_spliceAll hincluded ts s' u' hpaired' (hfile.mono hs hu)
      (fun span hspan => hspans span (List.mem_append_right _ hspan))
      fun c hc => hchoice c (List.mem_append_right _ hc)) fun more more' s'' u'' hpaired'' hs' hu' hmore => ?_
    exact agrees_pure hpaired'' ((hfirst.mono hs' hu').append hmore)

end

end Splice

/-- The spans of a tree that was read are in its file. -/
theorem file_of_mem_spans {id : FileId} {text : String} {tree : Root} (h : parse id text = .ok tree) :
    ∀ s ∈ tree.spans, s.file = id := by
  rw [← inFile_of_parse h]
  show ∀ s ∈ (tree.mapSpan (Span.inFile id)).spans, s.file = id
  rw [Root.spans_mapSpan, List.forall_mem_map]
  exact fun _ _ => rfl

/-- The blocks of two trees of a file are spliced alike if inclusions are. -/
theorem SameLoaded.agrees_spliceAll {path : Path} {root root' : Root}
    {included included' : Source → SessionM (List Stmt)} {emptied emptied' : Choice → SessionM (List Stmt)}
    (h : r.SameLoaded path s.sources u.sources root root') (hpaired : r.Paired s u)
    (hincluded : ∀ id source s u, r.Paired s u →
      AgreesAt r NamedBlock (included source) (included' (source.mapSpan (Span.inFile id))) s u) :
    AgreesAt r NamedBlock (Stmt.spliceAll included emptied root.statements)
      (Stmt.spliceAll included' emptied' root'.statements) s u := by
  obtain ⟨text, id, id', tree, -, htree, rfl, rfl, hfile⟩ := h
  exact Resolver.agrees_spliceAll (hincluded id') tree.statements s u hpaired hfile
    (fun span hspan => file_of_mem_spans htree span (List.mem_append_right _ hspan))
    (members_ne_nil_of_parse htree)

/-- An inclusion yields statements that differ in file numbers only. -/
theorem agrees_includeSource (label : Path) (room : Nat) (stack : List Path) (id : FileId) (source : Source)
    (s u : Session) (hpaired : r.Paired s u) :
    AgreesAt r NamedBlock ((r.withCache true).includeSource label room stack source)
      ((r.withCache false).includeSource label room stack (source.mapSpan (Span.inFile id))) s u := by
  induction room generalizing stack id source s u with
  | zero =>
    refine (agrees_locate hpaired label stack source id).bind fun target _ s u hpaired _ _ htarget => ?_
    subst htarget
    cases target with
    | none => exact agrees_pure hpaired .nil
    | some path => exact agrees_throw hpaired rfl
  | succ room ih =>
    refine (agrees_locate hpaired label stack source id).bind fun target _ s u hpaired _ _ htarget => ?_
    subst htarget
    cases target with
    | none => exact agrees_pure hpaired .nil
    | some path =>
      refine (agrees_load hpaired path).bind fun root root' s u hpaired _ _ hroot => ?_
      exact hroot.agrees_spliceAll hpaired fun id source s u => ih (path :: stack) id source s u

end Inclusions

end Resolver

/-! ## Whole configurations -/

/-- Configurations that differ in file numbers only, and these are the `same`. -/
structure ResolvedTree.Renumbered (same : FileId → FileId → Prop) (tree tree' : ResolvedTree) : Prop where
  root : same tree.root tree'.root
  title : tree.mainMenu.map (MainMenu.mapSpan (Span.inFile .root)) =
    tree'.mainMenu.map (MainMenu.mapSpan (Span.inFile .root))
  titleFiles : List.Forall₂ (fun s t : Span => same s.file t.file)
    (tree.mainMenu.toList.flatMap MainMenu.spans) (tree'.mainMenu.toList.flatMap MainMenu.spans)
  block : SameBlock same tree.statements tree'.statements

/-- Configurations that differ in file numbers only; the numbers stand for the same files. -/
def ResolvedTree.Same (tree tree' : ResolvedTree) : Prop :=
  Renumbered (SameFile tree.sources tree'.sources) tree tree'

theorem ResolvedTree.Renumbered.mono {same same' : FileId → FileId → Prop} {tree tree' : ResolvedTree}
    (h : Renumbered same tree tree') (hsame : ∀ id id', same id id' → same' id id') :
    Renumbered same' tree tree' where
  root := hsame _ _ h.root
  title := h.title
  titleFiles := h.titleFiles.imp fun _ _ hid => hsame _ _ hid
  block := h.block.mono hsame

namespace Resolver

variable {r : Resolver} {s u : Session}

/-- The roots of two sessions are the same up to file numbers. -/
theorem SameLoaded.renumbered {path : Path} {root root' : Root} {map map' : SourceMap} {block block' : List Stmt}
    (h : r.SameLoaded path map map' root root') (hblock : NamedBlock map map' block block') :
    ResolvedTree.Renumbered (SameNamed map map') ⟨root.file, root.mainMenu, block, map⟩
      ⟨root'.file, root'.mainMenu, block', map'⟩ := by
  obtain ⟨text, id, id', tree, -, htree, rfl, rfl, hfile⟩ := h
  have hid : tree.file = id := congrArg Root.file (inFile_of_parse htree).symm
  have htitle : tree.mainMenu.map (MainMenu.mapSpan (Span.inFile id)) = tree.mainMenu :=
    congrArg Root.mainMenu (inFile_of_parse htree)
  refine ⟨?_, ?_, ?_, hblock⟩
  · show SameNamed map map' tree.file id'
    rwa [hid]
  · show _ = (tree.mainMenu.map (MainMenu.mapSpan (Span.inFile id'))).map _
    rw [Option.map_map]
    rfl
  · show List.Forall₂ _ (tree.mainMenu.toList.flatMap MainMenu.spans)
      ((tree.mainMenu.map (MainMenu.mapSpan (Span.inFile id'))).toList.flatMap MainMenu.spans)
    rw [MainMenu.flatMap_spans_mapSpan]
    exact forall₂_inFile hfile fun span hspan =>
      file_of_mem_spans htree span (List.mem_append_left _ hspan)

theorem agrees_fileSession (r : Resolver) (path : Path) :
    AgreesAt r (fun map map' tree tree' => tree.Renumbered (SameNamed map map') tree' ∧
        tree.sources = map ∧ tree'.sources = map')
      ((r.withCache true).fileSession path) ((r.withCache false).fileSession path) .start .start := by
  unfold fileSession
  rw [show (r.withCache true).loader = r.loader from rfl, show (r.withCache false).loader = r.loader from rfl]
  cases r.loader.canonicalize path with
  | error e => exact agrees_throw r.paired_start rfl
  | ok file =>
    refine (agrees_load r.paired_start file).bind fun root root' s u hpaired _ _ hroot => ?_
    have hblock : AgreesAt r NamedBlock ((r.withCache true).expandBlock path [file] root.statements)
        ((r.withCache false).expandBlock path [file] root'.statements) s u :=
      hroot.agrees_spliceAll hpaired fun id source s u =>
        agrees_includeSource path (r.limits.maxDepth - 1) [file] id source s u
    refine AgreesAt.bind hblock fun block block' s' u' hpaired' hs hu hblock => agrees_get_bind ?_
    exact agrees_pure hpaired' ⟨(hroot.mono hs hu).renumbered hblock, rfl, rfl⟩

/-- With the cache no more files are registered than there are in memory. -/
theorem size_le_of_memoryTree (r : Resolver) (files : MemoryTree) (hfiles : r.loader = files.loader) (path : Path) :
    (((r.withCache true).fileSession path).run.run .start).2.sources.size ≤ files.files.length := by
  have hnodup := (agrees_fileSession r path).once_fewer.1
  have hcanonical := ((r.withCache true).later_session (.file path)).known_of_mem_paths (List.forall_mem_nil _)
  have hsub : ∀ file ∈ (((r.withCache true).fileSession path).run.run .start).2.sources.paths,
      file ∈ files.files.map Prod.fst := by
    intro file hfile
    obtain ⟨asked, hasked⟩ := hcanonical file hfile
    rw [show (r.withCache true).loader = files.loader from hfiles] at hasked
    obtain ⟨text, -, hmem⟩ := MemoryTree.read_of_canonicalize hasked
    exact List.mem_map_of_mem hmem
  calc (((r.withCache true).fileSession path).run.run .start).2.sources.size
    _ = (((r.withCache true).fileSession path).run.run .start).2.sources.paths.length := (List.length_map _).symm
    _ ≤ (files.files.map Prod.fst).length := (List.subperm_of_subset hnodup hsub).length_le
    _ = files.files.length := List.length_map _

/-- A session that yields a configuration without the cache yields one with it, and with few files in memory it has
numbers for them. -/
theorem exists_cached_of_uncached (r : Resolver) (files : MemoryTree) (hfiles : r.loader = files.loader)
    (hfew : files.files.length < UInt32.size) (hclock : r.hasDeadline = true) {path : Path} {tree' : ResolvedTree}
    {u : Session} (h : ((r.withCache false).fileSession path).run.run .start = (.ok tree', u)) :
    ∃ tree, (r.withCache true).resolveFile? path = some (.ok tree) := by
  have hsize : 0 + (((r.withCache true).fileSession path).run.run .start).2.sources.size < UInt32.size := by
    rw [Nat.zero_add]
    exact Nat.lt_of_le_of_lt (size_le_of_memoryTree r files hfiles path) hfew
  have hresult : (r.withCache true).resolveFile? path = some (((r.withCache true).fileSession path).run.run .start).1 :=
    ((r.withCache true).ending?_session (.file path)).trans (if_pos ⟨hclock, hsize⟩)
  have hagrees := agrees_fileSession r path
  unfold AgreesAt at hagrees
  rw [h] at hagrees
  rw [hresult]
  generalize ((r.withCache true).fileSession path).run.run .start = outcome at hagrees ⊢
  rcases outcome with ⟨e | tree, s⟩
  · exact hagrees.elim
  · exact ⟨tree, rfl⟩

/-- A session that remembers the trees of files and one that reads every file again yield the same configuration or fail
with the same error, file numbers apart, as long as there are numbers for all the files that the second one registers;
and the files that the first one registers have different paths. -/
theorem resolveFile_cache (r : Resolver) (path : Path) :
    (r.hasDeadline = true →
      (((r.withCache false).fileSession path).run.run .start).2.sources.size < UInt32.size →
      ∃ outcome outcome', (r.withCache true).resolveFile? path = some outcome ∧
        (r.withCache false).resolveFile? path = some outcome' ∧
        match outcome, outcome' with
        | .ok tree, .ok tree' => tree.Same tree' ∧ tree.sources.paths.Nodup
        | .error e, .error e' => e.mapSpan (Span.inFile .root) = e'.mapSpan (Span.inFile .root)
        | _, _ => False) ∧
      (((r.withCache true).fileSession path).run.run .start).2.sources.paths.Nodup := by
  have hagrees := agrees_fileSession r path
  refine ⟨fun hclock hloads => ?_, hagrees.once_fewer.1⟩
  have hcounted (cache : Bool) : (((r.withCache cache).fileSession path).run.run .start).2.sources.Counted 0 :=
    (r.withCache cache).counted_session (.file path)
  have hlast' : (((r.withCache false).fileSession path).run.run .start).2.sources.overflowed = false := by
    refine Bool.eq_false_iff.mpr fun hover => Nat.not_le_of_lt hloads ?_
    simpa using (hcounted false).overflowed_iff.mp hover
  have hlast := hagrees.once_fewer.2.overflowed (hcounted true) (hcounted false) hlast'
  refine ⟨_, _, ending?_eq_some_iff.mpr ⟨hclock, hlast, rfl⟩, ending?_eq_some_iff.mpr ⟨hclock, hlast', rfl⟩, ?_⟩
  unfold AgreesAt at hagrees
  generalize ((r.withCache true).fileSession path).run.run .start = outcome at hagrees hlast ⊢
  generalize ((r.withCache false).fileSession path).run.run .start = outcome' at hagrees hlast' ⊢
  rcases outcome with ⟨e | tree, s⟩ <;> rcases outcome' with ⟨e' | tree', u⟩
  · exact hagrees.1
  · exact hagrees.elim
  · exact hagrees.elim
  · obtain ⟨⟨hsame, hsources, hsources'⟩, hpaired, -, -⟩ := hagrees
    refine ⟨?_, hsources ▸ hpaired.once⟩
    rw [ResolvedTree.Same, hsources, hsources']
    exact hsame.mono fun _ _ hid => hid.sameFile hlast hlast'

/-- A file that is included under two paths. -/
def doubled : Resolver where
  loader := MemoryTree.loader ⟨[(⟨"/Kconfig"⟩, "source \"part\"\nsource \"./part\"\n"), (⟨"/part"⟩, "config A\n")]⟩
  expandPath := id
  base := ⟨"/"⟩

theorem doubled_cache : ∃ tree tree', (doubled.withCache true).resolveFile? ⟨"Kconfig"⟩ = some (.ok tree) ∧
    (doubled.withCache false).resolveFile? ⟨"Kconfig"⟩ = some (.ok tree') ∧ tree.Same tree' ∧
    tree.sources.paths.Nodup := by
  obtain ⟨outcome, outcome', hon, hoff, hsame⟩ := (resolveFile_cache doubled ⟨"Kconfig"⟩).1 rfl (by decide +kernel)
  obtain ⟨tree, htree⟩ := exists_some_ok_of_any (x := (doubled.withCache true).resolveFile? ⟨"Kconfig"⟩)
    (by decide +kernel)
  obtain rfl := Option.some.inj (hon.symm.trans htree)
  cases outcome' with
  | ok tree' => exact ⟨tree, tree', hon, hoff, hsame⟩
  | error e => exact hsame.elim

/-- Seventeen files with which the numbers run out without the cache, and do not with it. -/
theorem cascade_stops : (cascade false).resolveFile? (cascadePath 16) = none ∧
    ∃ tree, (cascade true).resolveFile? (cascadePath 16) = some (.ok tree) := by
  obtain ⟨tree', u, hrun, hsize⟩ := run_fileSession_cascade
  constructor
  · exact resolveFile?_eq_none hrun hsize
  · exact exists_cached_of_uncached (cascade true) cascadeTree rfl (by decide) rfl hrun

end Resolver

end KconfigLang
