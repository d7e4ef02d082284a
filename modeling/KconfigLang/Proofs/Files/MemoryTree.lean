import KconfigLang.Files.MemoryTree
import KconfigLang.Proofs.Files.SourceMap
import KconfigLang.Proofs.Text.Lines

/-!
# Files in memory

A file in memory is known by its normal path, which is a normal path again.

- `Path.normal_normal`: normal paths stay as they are.
- `MemoryTree.canonicalize_canonicalize`: so canonical paths stay as they are.
- `MemoryTree.read_of_canonicalize`: known files can be read.
-/

namespace KconfigLang

namespace Path

/-! ## Normal paths -/

/-- A name of a file: a component of a path that is not special. -/
structure IsName (name : List Char) : Prop where
  ne_nil : name ≠ []
  ne_dot : name ≠ ['.']
  ne_dots : name ≠ ['.', '.']
  no_slash : '/' ∉ name

/-- A component is `..` or a name. -/
theorem isName_of_mem_components {p : Path} {c : List Char} (h : c ∈ p.components)
    (hdots : c ≠ ['.', '.']) : IsName c := by
  obtain ⟨hsplit, hkept⟩ := List.mem_filter.mp h
  obtain ⟨hnil, hdot⟩ : c ≠ [] ∧ c ≠ ['.'] := by simpa using hkept
  exact ⟨hnil, hdot, hdots, not_mem_of_mem_splitOn hsplit⟩

theorem forall_isName_follow {dir : List (List Char)} (hdir : ∀ name ∈ dir, IsName name)
    {p : Path} {c : List Char} (h : c ∈ p.components) : ∀ name ∈ follow dir c, IsName name := by
  unfold follow
  split
  · exact fun name hname => hdir name (List.dropLast_subset dir hname)
  · rename_i hdots
    exact List.forall_mem_append.mpr
      ⟨hdir, List.forall_mem_singleton.mpr (isName_of_mem_components h hdots)⟩

/-- A path leads from names to names. -/
theorem forall_isName_followAll (p : Path) : ∀ name ∈ p.followAll [], IsName name := by
  have hfold : ∀ cs : List (List Char), (∀ c ∈ cs, c ∈ p.components) →
      ∀ dir : List (List Char), (∀ name ∈ dir, IsName name) →
        ∀ name ∈ cs.foldl follow dir, IsName name := by
    intro cs hcs
    induction cs with
    | nil => exact fun _ hdir => hdir
    | cons c cs ih =>
      obtain ⟨hc, hcs⟩ := List.forall_mem_cons.mp hcs
      exact fun dir hdir => ih hcs _ (forall_isName_follow hdir hc)
  exact hfold p.components (fun _ h => h) [] (List.forall_mem_nil _)

theorem components_ofNames {names : List (List Char)} (h : ∀ name ∈ names, IsName name) :
    (ofNames names).components = names := by
  have hkept : names.filter (fun c => c ≠ [] && c ≠ ['.']) = names := by
    refine List.filter_eq_self.mpr fun name hname => ?_
    simp [(h name hname).ne_nil, (h name hname).ne_dot]
  unfold components ofNames
  rw [String.toList_ofList, List.splitOn_cons_eq_if_modifyHead, if_pos (by decide)]
  cases names with
  | nil => simp
  | cons name names =>
    rw [List.splitOn_intercalate '/' (fun n hn => (h n hn).no_slash) (List.cons_ne_nil _ _),
      List.filter_cons_of_neg (by simp), hkept]

theorem followAll_ofNames {names : List (List Char)} (h : ∀ name ∈ names, IsName name) :
    (ofNames names).followAll [] = names := by
  have hfold : ∀ dir, names.foldl follow dir = dir ++ names := by
    induction names with
    | nil => exact fun dir => (List.append_nil dir).symm
    | cons name names ih =>
      obtain ⟨hname, hnames⟩ := List.forall_mem_cons.mp h
      intro dir
      rw [List.foldl_cons, ih hnames, follow, if_neg hname.ne_dots, List.append_assoc]
      rfl
  unfold followAll
  rw [components_ofNames h, hfold, List.nil_append]

/-- Normal paths stay as they are. -/
theorem normal_normal (p : Path) : p.normal.normal = p.normal := by
  unfold normal
  rw [followAll_ofNames (forall_isName_followAll p)]

end Path

/-! ## Known files -/

namespace MemoryTree

variable {tree : MemoryTree} {path file : Path}

theorem canonicalize_eq_ok_iff :
    tree.loader.canonicalize path = .ok file ↔
      path.normal = file ∧ ∃ text, tree.text? path = some text := by
  unfold loader
  cases htext : tree.text? path <;> simp [htext]

/-- The canonical path of a file is its own canonical path. -/
theorem canonicalize_canonicalize (h : tree.loader.canonicalize path = .ok file) :
    tree.loader.canonicalize file = .ok file := by
  obtain ⟨rfl, text, htext⟩ := canonicalize_eq_ok_iff.mp h
  refine canonicalize_eq_ok_iff.mpr ⟨Path.normal_normal path, text, ?_⟩
  rw [text?, Path.normal_normal]
  exact htext

/-- What a tree does not know is missing. -/
theorem kind_of_canonicalize {e : IoError} (h : tree.loader.canonicalize path = .error e) :
    e.kind = .notFound := by
  unfold loader at h
  cases htext : tree.text? path with
  | some text => simp [htext] at h
  | none =>
    obtain rfl : missing path = e := by simpa [htext] using h
    rfl

/-- A file that is known is a file of the tree and can be read. -/
theorem read_of_canonicalize (h : tree.loader.canonicalize path = .ok file) :
    ∃ text, tree.loader.read file = .ok text ∧ (file, text) ∈ tree.files := by
  obtain ⟨rfl, text, htext⟩ := canonicalize_eq_ok_iff.mp h
  have hfile : tree.text? path.normal = some text := by
    unfold text?
    rw [Path.normal_normal]
    exact htext
  refine ⟨text, ?_, mem_of_lookup htext⟩
  unfold loader
  simp [hfile]

end MemoryTree

end KconfigLang
