import KconfigLang.Inclusion.Resolve
import KconfigLang.Proofs.Files.MemoryTree
import KconfigLang.Proofs.Grammar.Positions
import KconfigLang.Proofs.Inclusion.Yields
import Mathlib.Data.List.Chain
import Mathlib.Data.List.Nodup
import Mathlib.Logic.Relation

/-!
# Cycles of inclusions

Where nothing else can go wrong, a session fails if and only if a cycle of inclusions can be reached from the
root, and then it names one.

- `Includes` and `Cyclic`: the graph of inclusions and the cycles in it.
- `ReportsCycle`: what an error says of a cycle is so.
- `Complete`: nothing but a cycle can go wrong; `Unobstructed`: nothing but a cycle or the depth of inclusions.
- `Expanding`: the files that are being expanded are a path in the graph.
- `resolveFile_ok_iff_acyclic`: the outcome of a session.
-/

namespace KconfigLang.Resolver

open Relation

/-! ## The graph of inclusions -/

/-- An inclusion stands in a file, at any nesting. -/
def Contains (r : Resolver) (file : Path) (source : Source) : Prop :=
  ∃ text id root, r.loader.read file = .ok text ∧ parse id text = .ok root ∧
    .source source ∈ Stmt.walkAll root.statements

/-- An inclusion in a file leads to another file. -/
def Includes (r : Resolver) (file path : Path) : Prop :=
  ∃ source, r.Contains file source ∧ r.loader.canonicalize (r.target [file] source) = .ok path

/-- A file from which a cycle can be reached. -/
def Cyclic (r : Resolver) (file : Path) : Prop :=
  ∃ path, ReflTransGen r.Includes file path ∧ TransGen r.Includes path path

/-- The files of an error start at the root, each includes the next one, and only the last one repeats; the
inclusion at fault is in the file before it. -/
structure ReportsCycle (r : Resolver) (root : Path) (files : List Path) (referrer : Path) (span : Span) :
    Prop where
  starts : files.head? = some root
  edges : files.IsChain r.Includes
  nodup : files.dropLast.Nodup
  refers : files.dropLast.getLast? = some referrer
  closes : ∃ last ∈ files.dropLast, files.getLast? = some last ∧
    ∃ source, r.Contains referrer source ∧ source.span = span ∧
      r.loader.canonicalize (r.target [referrer] source) = .ok last

variable {r : Resolver} {tree : MemoryTree} {root file path : Path} {below : List Path} {source : Source}

theorem Loaded.contains {t : Root} (h : r.Loaded file t)
    (hs : .source source ∈ Stmt.walkAll t.statements) : r.Contains file source := by
  obtain ⟨text, id, tree, htext, htree, rfl⟩ := h
  exact ⟨text, id, tree, htext, htree, hs⟩

/-- Every tree of a file has all its inclusions. -/
theorem Loaded.exists_source {t : Root} (h : r.Loaded file t) (hs : r.Contains file source) :
    ∃ s, .source s ∈ Stmt.walkAll t.statements ∧ s.erase = source.erase := by
  obtain ⟨text, id, tree, htext, htree, rfl⟩ := h
  obtain ⟨text', id', tree', htext', htree', hsource⟩ := hs
  obtain rfl : text' = text := Except.ok.inj (htext'.symm.trans htext)
  obtain ⟨same, hsame, hmatch⟩ := parse_matching htree' id
  obtain rfl : same = tree := Except.ok.inj (hsame.symm.trans htree)
  exact Stmt.exists_source_of_eraseAll_eq (Root.mk.inj hmatch).2.2.2 hsource

/-- A file is not on the way to a cycle if no file that it includes is. -/
theorem not_cyclic_of_includes (h : ∀ path, r.Includes file path → ¬ r.Cyclic path) :
    ¬ r.Cyclic file := by
  rintro ⟨path, hreach, hcycle⟩
  have hstep : ∃ next, r.Includes file next ∧ ReflTransGen r.Includes next path := by
    rcases hreach.cases_head with rfl | hstep
    · exact TransGen.head'_iff.mp hcycle
    · exact hstep
  obtain ⟨next, hnext, hpath⟩ := hstep
  exact h next hnext ⟨path, hpath, hcycle⟩

/-- There is a cycle where one is reported. -/
theorem ReportsCycle.cyclic {files : List Path} {referrer : Path} {span : Span}
    (h : r.ReportsCycle root files referrer span) : r.Cyclic root := by
  obtain ⟨last, hmem, hlast, -⟩ := h.closes
  have hfiles : files = files.dropLast ++ [last] :=
    (List.dropLast_append_getLast? last hlast).symm
  have hchain : files.IsChain (TransGen r.Includes) := h.edges.imp fun _ _ => .single
  -- Along a path every file reaches every later one, so each file before the last reaches the last.
  have hreach : ∀ f ∈ files.dropLast, TransGen r.Includes f last := by
    have hpairs := List.isChain_iff_pairwise.mp hchain
    rw [hfiles] at hpairs
    exact fun f hf => (List.pairwise_append.mp hpairs).2.2 f hf last List.mem_cons_self
  have hroot : root ∈ files.dropLast := by
    have hstarts := h.starts
    cases hinit : files.dropLast with
    | nil => exact absurd (hinit ▸ hmem) List.not_mem_nil
    | cons f fs =>
      rw [hfiles, hinit] at hstarts
      obtain rfl : f = root := Option.some.inj hstarts
      exact List.mem_cons_self
  exact ⟨last, (hreach root hroot).to_reflTransGen, hreach last hmem⟩

/-! ## Files that are being expanded -/

/-- Nothing but a cycle can go wrong in a tree of files: there is room for all of them, those that can be
reached from the root have trees, and those that must be there are. -/
structure Complete (r : Resolver) (tree : MemoryTree) (root : Path) : Prop where
  loader : r.loader = tree.loader
  uncancelled : ∀ n, r.surroundings.cancelled n = false
  unlimited : r.limits.timeLimit = none
  room : tree.files.length ≤ r.limits.maxDepth
  parses : ∀ file text, ReflTransGen r.Includes root file → r.loader.read file = .ok text →
    ∃ t, parse .root text = .ok t
  targets : ∀ file source, ReflTransGen r.Includes root file → r.Contains file source →
    source.kind.isOptional = false → ∃ path, r.loader.canonicalize (r.target [file] source) = .ok path

/-- Nothing but a cycle or the depth of inclusions can go wrong in a tree of files: those that can be reached from
the root have trees, and those that must be there are. -/
structure Unobstructed (r : Resolver) (tree : MemoryTree) (root : Path) : Prop where
  loader : r.loader = tree.loader
  uncancelled : ∀ n, r.surroundings.cancelled n = false
  unlimited : r.limits.timeLimit = none
  parses : ∀ file text, ReflTransGen r.Includes root file → r.loader.read file = .ok text →
    ∃ t, parse .root text = .ok t
  targets : ∀ file source, ReflTransGen r.Includes root file → r.Contains file source →
    source.kind.isOptional = false → ∃ path, r.loader.canonicalize (r.target [file] source) = .ok path

theorem Complete.unobstructed (h : Complete r tree root) : Unobstructed r tree root :=
  ⟨h.loader, h.uncancelled, h.unlimited, h.parses, h.targets⟩

/-- The files that are being expanded, `file` inside those `below`, are a path from the root without
repetitions through files of the tree. -/
structure Expanding (r : Resolver) (tree : MemoryTree) (root file : Path) (below : List Path) : Prop where
  nodup : (file :: below).Nodup
  known : ∀ f ∈ file :: below, f ∈ tree.files.map Prod.fst
  edges : (file :: below).IsChain fun p q => r.Includes q p
  starts : (file :: below).getLast? = some root
  reached : ReflTransGen r.Includes root file

theorem Expanding.start (h : root ∈ tree.files.map Prod.fst) : Expanding r tree root root [] where
  nodup := List.nodup_singleton root
  known := List.forall_mem_singleton.mpr h
  edges := List.isChain_singleton root
  starts := rfl
  reached := .refl

/-- Another file that is included may be expanded. -/
theorem Expanding.push (h : Expanding r tree root file below) (hincludes : r.Includes file path)
    (hnew : path ∉ file :: below) (hknown : path ∈ tree.files.map Prod.fst) :
    Expanding r tree root path (file :: below) where
  nodup := List.nodup_cons.mpr ⟨hnew, h.nodup⟩
  known := List.forall_mem_cons.mpr ⟨hknown, h.known⟩
  edges := List.isChain_cons_cons.mpr ⟨hincludes, h.edges⟩
  starts := by rw [List.getLast?_cons_cons, h.starts]
  reached := h.reached.tail hincludes

theorem Expanding.length_le (h : Expanding r tree root file below) :
    (file :: below).length ≤ tree.files.length := by
  simpa using h.nodup.length_le_of_subset h.known

/-- A file that is included while it is being expanded closes a cycle. -/
theorem Expanding.reportsCycle (h : Expanding r tree root file below) (hsource : r.Contains file source)
    (hpath : r.loader.canonicalize (r.target [file] source) = .ok path) (hmem : path ∈ file :: below) :
    r.ReportsCycle root (path :: file :: below).reverse file source.span := by
  have hinit : (path :: file :: below).reverse.dropLast = (file :: below).reverse := by
    rw [List.reverse_cons, List.dropLast_concat]
  refine ⟨?_, ?_, ?_, ?_, path, ?_, ?_, source, hsource, rfl, hpath⟩
  · rw [List.head?_reverse, List.getLast?_cons_cons, h.starts]
  · exact List.isChain_reverse.mpr (List.isChain_cons_cons.mpr ⟨⟨source, hsource, hpath⟩, h.edges⟩)
  · rw [hinit]
    exact List.nodup_reverse.mpr h.nodup
  · rw [hinit, List.getLast?_reverse]
    rfl
  · rw [hinit]
    exact List.mem_reverse.mpr hmem
  · rw [List.getLast?_reverse]
    rfl

/-! ## Checking a tree -/

theorem exists_canonicalize_of_reached (hroot : r.loader.canonicalize path = .ok root)
    (h : ReflTransGen r.Includes root file) : ∃ p, r.loader.canonicalize p = .ok file := by
  cases h with
  | refl => exact ⟨path, hroot⟩
  | tail _ hincludes =>
    obtain ⟨source, -, hpath⟩ := hincludes
    exact ⟨_, hpath⟩

/-- An error is that of a cycle. -/
def FailsByCycle (r : Resolver) (root : Path) (e : ResolveError) : Prop :=
  ∃ files referrer span, e = .cycle files referrer span ∧ r.ReportsCycle root files referrer span

/-- An inclusion leads to no cycle, whatever replaces it. -/
def LeadsToNoCycle (r : Resolver) (file : Path) (source : Source) (_ : List Stmt) : Prop :=
  ∀ path, r.loader.canonicalize (r.target [file] source) = .ok path → ¬ r.Cyclic path

/-- A file whose inclusions lead to no cycle is not on the way to one. -/
theorem Loaded.not_cyclic {t : Root} {block : List Stmt} (h : r.Loaded file t)
    (hblock : Stmt.ReplacesAll (r.LeadsToNoCycle file) t.statements block) : ¬ r.Cyclic file := by
  refine not_cyclic_of_includes fun path hincludes => ?_
  obtain ⟨source, hcontains, hpath⟩ := hincludes
  obtain ⟨s, hs, herase⟩ := h.exists_source hcontains
  obtain ⟨out, hsource⟩ := hblock.forall_source s hs
  refine hsource path ?_
  rw [target_congr [file] herase, hpath]

namespace Unobstructed

variable {E : ResolveError → Prop} (h : Unobstructed r tree root)

include h

theorem mem_files (hpath : r.loader.canonicalize path = .ok file) :
    file ∈ tree.files.map Prod.fst := by
  rw [h.loader] at hpath
  obtain ⟨text, -, hmem⟩ := MemoryTree.read_of_canonicalize hpath
  exact List.mem_map_of_mem hmem

/-- A file that can be reached has a tree. -/
theorem yields_load (hreach : ReflTransGen r.Includes root file)
    (hpath : r.loader.canonicalize path = .ok file) :
    Yields r.Remembers (r.load file) (r.Loaded file) E := by
  refine Resolver.yields_load (fun e he => ?_) fun text id e htext he => ?_
  · rw [h.loader] at hpath he
    obtain ⟨text, htext, -⟩ := MemoryTree.read_of_canonicalize hpath
    exact nomatch he.symm.trans htext
  · obtain ⟨t, ht⟩ := h.parses file text hreach htext
    obtain ⟨t', ht', -⟩ := parse_matching ht id
    exact nomatch he.symm.trans ht'

/-- An inclusion in a file that is being expanded is located, or it closes a cycle. -/
theorem yields_locate (label : Path) (hexp : Expanding r tree root file below)
    (hsource : r.Contains file source)
    (hcycle : ∀ files, r.ReportsCycle root files file source.span → E (.cycle files file source.span)) :
    Yields r.Remembers (r.locate label (file :: below) source) (r.Locates (file :: below) source) E := by
  refine Resolver.yields_locate (fun n hn => ?_) (fun limit hlimit => ?_) (fun path hpath hmem => ?_)
    fun e he hskip => ?_
  · exact nomatch (h.uncancelled n).symm.trans hn
  · exact nomatch h.unlimited.symm.trans hlimit
  · exact hcycle _ (hexp.reportsCycle hsource hpath hmem)
  · have hkind : e.kind = .notFound := by
      rw [h.loader] at he
      exact MemoryTree.kind_of_canonicalize he
    have hrequired : source.kind.isOptional = false :=
      Bool.eq_false_iff.mpr fun hoptional => hskip ⟨hoptional, hkind⟩
    obtain ⟨path, hpath⟩ := h.targets file source hexp.reached hsource hrequired
    exact nomatch he.symm.trans hpath

end Unobstructed

namespace Complete

variable (h : Complete r tree root)

include h

theorem mem_files (hpath : r.loader.canonicalize path = .ok file) :
    file ∈ tree.files.map Prod.fst :=
  h.unobstructed.mem_files hpath

theorem yields_load (hreach : ReflTransGen r.Includes root file)
    (hpath : r.loader.canonicalize path = .ok file) :
    Yields r.Remembers (r.load file) (r.Loaded file) (r.FailsByCycle root) :=
  h.unobstructed.yields_load hreach hpath

theorem yields_locate (label : Path) (hexp : Expanding r tree root file below)
    (hsource : r.Contains file source) :
    Yields r.Remembers (r.locate label (file :: below) source) (r.Locates (file :: below) source)
      (r.FailsByCycle root) :=
  h.unobstructed.yields_locate label hexp hsource fun _ hreports => ⟨_, _, _, rfl, hreports⟩

/-- There is room for every file that may be expanded next. -/
theorem lt_maxDepth (hexp : Expanding r tree root file below) (hsource : r.Contains file source)
    (hpath : r.Locates (file :: below) source (some path)) :
    (file :: below).length < r.limits.maxDepth := by
  -- The files that are being expanded are different files of the tree, the next one among them.
  have hpush := hexp.push ⟨source, hsource, hpath.1⟩ hpath.2 (h.mem_files hpath.1)
  exact Nat.lt_of_lt_of_le hpush.length_le h.room

/-- Expanding an inclusion finds a cycle or shows that it leads to none. -/
theorem yields_includeSource (label : Path) {room : Nat} (hexp : Expanding r tree root file below)
    (hroom : r.limits.maxDepth ≤ room + (file :: below).length) (hsource : r.Contains file source) :
    Yields r.Remembers (r.includeSource label room (file :: below) source)
      (r.LeadsToNoCycle file source) (r.FailsByCycle root) := by
  have hnone : ∀ {file below source}, r.Locates (file :: below) source none →
      r.LeadsToNoCycle file source [] := by
    rintro file below source ⟨-, e, he, -⟩ path hpath
    exact nomatch he.symm.trans hpath
  induction room generalizing file below source with
  | zero =>
    refine yields_includeSource_zero (h.yields_locate label hexp hsource) hnone fun path hpath => ?_
    have hlt := h.lt_maxDepth hexp hsource hpath
    omega
  | succ room ih =>
    have hpush : ∀ {path}, r.Locates (file :: below) source (some path) →
        Expanding r tree root path (file :: below) := fun hpath =>
      hexp.push ⟨source, hsource, hpath.1⟩ hpath.2 (h.mem_files hpath.1)
    refine yields_includeSource_succ (R := r.LeadsToNoCycle) (h.yields_locate label hexp hsource) hnone
      (fun path hpath => h.yields_load (hpush hpath).reached hpath.1)
      (fun path t hpath ht s hs => ?_) fun path t block hpath ht hblock => ?_
    · refine ih (hpush hpath) ?_ (ht.contains hs)
      rw [List.length_cons]
      omega
    · intro path' hpath'
      obtain rfl : path' = path := Except.ok.inj (hpath'.symm.trans hpath.1)
      exact ht.not_cyclic hblock

end Complete

/-- The root of a session that succeeds is not on the way to a cycle, and one that fails reports a cycle. -/
theorem Complete.resolveFile_outcome (h : Complete r tree root)
    (hroot : r.loader.canonicalize path = .ok root) :
    match r.resolveFile path with
    | .ok _ => ¬ r.Cyclic root
    | .error e => r.FailsByCycle root e := by
  have hstart : Expanding r tree root root [] := .start (h.mem_files hroot)
  have houtcome := Resolver.resolveFile_outcome hroot (h.yields_load .refl hroot) fun t ht =>
    ht.yields_spliceAll fun s hs => h.yields_includeSource path hstart
      (Nat.sub_le_iff_le_add.mp (Nat.le_refl _)) (ht.contains hs)
  cases hresult : r.resolveFile path with
  | ok resolved =>
    rw [hresult] at houtcome
    obtain ⟨t, ht, -, hblock⟩ := houtcome
    exact ht.not_cyclic hblock
  | error e =>
    rw [hresult] at houtcome
    exact houtcome

theorem Complete.not_cyclic (h : Complete r tree root) (hroot : r.loader.canonicalize path = .ok root)
    {resolved : ResolvedTree} (hok : r.resolveFile path = .ok resolved) : ¬ r.Cyclic root := by
  have houtcome := h.resolveFile_outcome hroot
  rw [hok] at houtcome
  exact houtcome

end KconfigLang.Resolver
