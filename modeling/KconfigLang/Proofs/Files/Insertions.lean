import KconfigLang.Proofs.Files.MemoryTree
import Mathlib.Data.List.Induction

/-!
# Insertions

What a tree in memory answers after some insertions. An insertion gives its text to every path with the normal form
of its own path, in place of what was inserted there before.

- `Path.components_join`: a path taken from a directory has the components of both.
- `Path.normal_join`: so where it leads is told by the normal form of the directory alone.
- `Path.IsCanonical`: an absolute path in which every component is a name.
- `MemoryTree.LastInsertion`: the insertion that a path reads.
- `MemoryTree.ofInsertions_answers`: which paths are known, what they read and which of them are the same file.
-/

namespace KconfigLang

namespace Path

/-! ## Paths taken from a directory -/

/-- The components among the pieces of a path between slashes. -/
theorem components_eq_of_splitOn {p : Path} {pieces more : List (List Char)}
    (h : p.text.toList.splitOn '/' = pieces ++ more) :
    p.components = pieces.filter (fun c => c ≠ [] && c ≠ ['.']) ++
      more.filter (fun c => c ≠ [] && c ≠ ['.']) := by
  rw [components, h, List.filter_append]

theorem components_join {dir p : Path} (h : p.isAbsolute = false) :
    (dir.join p).components = dir.components ++ p.components := by
  have hslash : ∀ before : List Char, (before ++ '/' :: p.text.toList).splitOn '/' =
      before.splitOn '/' ++ p.text.toList.splitOn '/' := fun before =>
    List.splitOn_append_cons_self before p.text.toList
  unfold join
  rw [if_neg (Bool.eq_false_iff.mp h)]
  split
  · rename_i hend
    rcases (Bool.or_eq_true _ _).mp hend with hempty | hlast
    · have hnil : dir.text.toList = [] := by simpa using hempty
      simp [components, hnil]
    · -- The slash at the end of the directory ends its last component.
      obtain ⟨before, hbefore⟩ := List.getLast?_eq_some_iff.mp (beq_iff_eq.mp hlast)
      have hjoin : (⟨dir.text ++ p.text⟩ : Path).text.toList.splitOn '/' =
          before.splitOn '/' ++ p.text.toList.splitOn '/' := by
        rw [← hslash, String.toList_append, hbefore, List.append_assoc]
        rfl
      have hdir : dir.text.toList.splitOn '/' = before.splitOn '/' ++ [[]] := by
        rw [hbefore, List.splitOn_append_cons_self, List.splitOn_nil]
      rw [components_eq_of_splitOn hjoin, components_eq_of_splitOn hdir]
      simp [components]
  · have hjoin : (⟨dir.text ++ "/" ++ p.text⟩ : Path).text.toList.splitOn '/' =
        dir.text.toList.splitOn '/' ++ p.text.toList.splitOn '/' := by
      rw [← hslash, String.toList_append, String.toList_append, List.append_assoc]
      rfl
    exact components_eq_of_splitOn hjoin

/-- A path taken from a directory is followed from where the directory leads. -/
theorem followAll_join {dir p : Path} (h : p.isAbsolute = false) :
    (dir.join p).followAll [] = p.followAll (dir.followAll []) := by
  unfold followAll
  rw [components_join h, List.foldl_append]

/-- Where a path taken from a directory leads is told by the normal form of the directory. -/
theorem normal_join (dir p : Path) : (dir.join p).normal = (dir.normal.join p).normal := by
  cases h : p.isAbsolute with
  | true => rw [join, join, if_pos h, if_pos h]
  | false =>
    have hnormal : dir.normal.followAll [] = dir.followAll [] := followAll_ofNames (forall_isName_followAll dir)
    rw [normal, normal, followAll_join h, followAll_join h, hnormal]

/-! ## Canonical paths -/

/-- An absolute path in which every component is the name of a file; the root has no components. -/
def IsCanonical (p : Path) : Prop :=
  ∃ rest, p.text.toList = '/' :: rest ∧ (rest = [] ∨ ∀ c ∈ rest.splitOn '/', IsName c)

theorem isCanonical_ofNames {names : List (List Char)} (h : ∀ name ∈ names, IsName name) :
    (ofNames names).IsCanonical := by
  refine ⟨['/'].intercalate names, String.toList_ofList, ?_⟩
  cases names with
  | nil => exact .inl rfl
  | cons name names =>
    rw [List.splitOn_intercalate '/' (fun n hn => (h n hn).no_slash) (List.cons_ne_nil _ _)]
    exact .inr h

theorem isCanonical_normal (p : Path) : p.normal.IsCanonical :=
  isCanonical_ofNames (forall_isName_followAll p)

end Path

namespace MemoryTree

/-! ## Insertions one after the other -/

theorem lookup_put_self (path : Path) (text : String) (files : List (Path × String)) :
    (put path text files).lookup path = some text := by
  induction files with
  | nil => simp [put]
  | cons file files ih =>
    obtain ⟨p, old⟩ := file
    rw [put]
    split
    · simp
    · rename_i hne
      rw [List.lookup_cons, beq_false_of_ne (Ne.symm hne)]
      exact ih

theorem lookup_put_of_ne {path key : Path} (h : key ≠ path) (text : String) (files : List (Path × String)) :
    (put path text files).lookup key = files.lookup key := by
  induction files with
  | nil => simp [put, h]
  | cons file files ih =>
    obtain ⟨p, old⟩ := file
    rw [put]
    split
    · rename_i heq
      rw [List.lookup_cons, List.lookup_cons, beq_false_of_ne h, beq_false_of_ne (heq ▸ h)]
    · rw [List.lookup_cons, List.lookup_cons, ih]

/-- An insertion is read by the paths with the normal form of its own. -/
theorem text?_insert (tree : MemoryTree) (q p : Path) (text : String) :
    (tree.insert q text).text? p = if q.normal = p.normal then some text else tree.text? p := by
  unfold insert text?
  split
  · rename_i h
    rw [← h]
    exact lookup_put_self _ _ _
  · rename_i h
    exact lookup_put_of_ne (Ne.symm h) _ _

/-- The tree that some insertions make, each of a path and a text. -/
def ofInsertions (inserts : List (Path × String)) : MemoryTree :=
  inserts.foldl (fun tree i => tree.insert i.1 i.2) empty

theorem text?_ofInsertions_concat (inserts : List (Path × String)) (i : Path × String) (p : Path) :
    (ofInsertions (inserts ++ [i])).text? p =
      if i.1.normal = p.normal then some i.2 else (ofInsertions inserts).text? p := by
  rw [ofInsertions, List.foldl_concat, text?_insert]
  rfl

/-! ## The insertion that a path reads -/

/-- Behind the insertions `before` stands the last one at a path with the normal form of `p`, with the text `text`. -/
def LastInsertion (inserts before : List (Path × String)) (p : Path) (text : String) : Prop :=
  ∃ q after, inserts = before ++ (q, text) :: after ∧ q.normal = p.normal ∧ ∀ i ∈ after, i.1.normal ≠ p.normal

section Last

variable {inserts before before' : List (Path × String)} {p q : Path} {text text' : String}

theorem not_lastInsertion_nil : ¬ LastInsertion [] before p text := by
  rintro ⟨q, after, h, -⟩
  exact List.append_ne_nil_of_right_ne_nil before (List.cons_ne_nil _ _) h.symm

theorem lastInsertion_concat_iff {i : Path × String} : LastInsertion (inserts ++ [i]) before p text ↔
    (i.1.normal = p.normal ∧ before = inserts ∧ text = i.2) ∨
      (i.1.normal ≠ p.normal ∧ LastInsertion inserts before p text) := by
  constructor
  · rintro ⟨q, after, h, hq, hafter⟩
    rcases concat_eq_append_cons_iff.mp h with ⟨rfl, rfl, rfl⟩ | ⟨after, rfl, rfl⟩
    · exact .inl ⟨hq, rfl, rfl⟩
    · obtain ⟨hafter, hi⟩ := List.forall_mem_append.mp hafter
      exact .inr ⟨hi i List.mem_cons_self, q, after, rfl, hq, hafter⟩
  · rintro (⟨hi, rfl, rfl⟩ | ⟨hi, q, after, rfl, hq, hafter⟩)
    · exact ⟨i.1, [], rfl, hi, List.forall_mem_nil _⟩
    · refine ⟨q, after ++ [i], by simp, hq, ?_⟩
      exact List.forall_mem_append.mpr ⟨hafter, List.forall_mem_singleton.mpr hi⟩

/-- A path reads one insertion only. -/
theorem LastInsertion.unique (h : LastInsertion inserts before p text)
    (h' : LastInsertion inserts before' p text') : before = before' ∧ text = text' := by
  induction inserts using List.reverseRecOn with
  | nil => exact absurd h not_lastInsertion_nil
  | append_singleton inserts i ih =>
    rcases lastInsertion_concat_iff.mp h with ⟨hi, rfl, rfl⟩ | ⟨hi, h⟩
    · rcases lastInsertion_concat_iff.mp h' with ⟨-, rfl, rfl⟩ | ⟨hi', -⟩
      · exact ⟨rfl, rfl⟩
      · exact absurd hi hi'
    · rcases lastInsertion_concat_iff.mp h' with ⟨hi', -⟩ | ⟨-, h'⟩
      · exact absurd hi' hi
      · exact ih h h'

theorem exists_lastInsertion_iff :
    (∃ before text, LastInsertion inserts before p text) ↔ ∃ i ∈ inserts, i.1.normal = p.normal := by
  constructor
  · rintro ⟨before, text, q, after, rfl, hq, -⟩
    exact ⟨(q, text), List.mem_append_right _ List.mem_cons_self, hq⟩
  · intro h
    induction inserts using List.reverseRecOn with
    | nil => exact absurd h.choose_spec.1 List.not_mem_nil
    | append_singleton inserts i ih =>
      by_cases hi : i.1.normal = p.normal
      · exact ⟨inserts, i.2, lastInsertion_concat_iff.mpr (.inl ⟨hi, rfl, rfl⟩)⟩
      · obtain ⟨j, hj, hjp⟩ := h
        rcases List.mem_append.mp hj with hj | hj
        · obtain ⟨before, text, hlast⟩ := ih ⟨j, hj, hjp⟩
          exact ⟨before, text, lastInsertion_concat_iff.mpr (.inr ⟨hi, hlast⟩)⟩
        · obtain rfl := List.mem_singleton.mp hj
          exact absurd hjp hi

/-- A path reads the text of the last insertion at its normal form. -/
theorem text?_ofInsertions_iff :
    (ofInsertions inserts).text? p = some text ↔ ∃ before, LastInsertion inserts before p text := by
  induction inserts using List.reverseRecOn with
  | nil => exact iff_of_false (Option.some_ne_none text).symm fun ⟨_, h⟩ => not_lastInsertion_nil h
  | append_singleton inserts i ih =>
    simp only [text?_ofInsertions_concat, lastInsertion_concat_iff]
    by_cases hi : i.1.normal = p.normal
    · simp [hi, eq_comm]
    · simp [hi, ih]

theorem LastInsertion.normal_eq (h : LastInsertion inserts before p text)
    (h' : LastInsertion inserts before q text') : p.normal = q.normal := by
  obtain ⟨a, after, rfl, ha, -⟩ := h
  obtain ⟨b, after', hinserts, hb, -⟩ := h'
  obtain ⟨heq, -⟩ := List.cons.inj (List.append_cancel_left hinserts)
  rw [← ha, ← hb, (Prod.mk.inj heq).1]

/-- Paths with one normal form read one insertion. -/
theorem LastInsertion.of_normal_eq (h : LastInsertion inserts before p text) (hpq : p.normal = q.normal) :
    LastInsertion inserts before q text := by
  obtain ⟨a, after, hinserts, ha, hafter⟩ := h
  exact ⟨a, after, hinserts, ha.trans hpq, fun i hi => hpq ▸ hafter i hi⟩

/-! ## What the tree answers -/

theorem read_eq_ok_iff {tree : MemoryTree} : tree.loader.read p = .ok text ↔ tree.text? p = some text := by
  unfold loader
  cases htext : tree.text? p <;> simp [htext]

/-- **Files in memory are known by their normal paths.** After some insertions a path is known if one of them was at
a path with its normal form, and it reads the last of these; its canonical path is absolute, has names as components
and is its own canonical path; two known paths have the same canonical path if they read the same insertion; and a
path taken from a directory leads where it leads from the normal form of the directory. -/
theorem ofInsertions_answers (inserts : List (Path × String)) :
    (∀ p, (∃ file, (ofInsertions inserts).loader.canonicalize p = .ok file) ↔
      ∃ i ∈ inserts, i.1.normal = p.normal) ∧
    (∀ p text, (ofInsertions inserts).loader.read p = .ok text ↔
      ∃ before, LastInsertion inserts before p text) ∧
    (∀ p file, (ofInsertions inserts).loader.canonicalize p = .ok file →
      file.IsCanonical ∧ (ofInsertions inserts).loader.canonicalize file = .ok file) ∧
    (∀ p q file file', (ofInsertions inserts).loader.canonicalize p = .ok file →
      (ofInsertions inserts).loader.canonicalize q = .ok file' →
      (file = file' ↔ ∃ before text, LastInsertion inserts before p text ∧ LastInsertion inserts before q text)) ∧
    ∀ dir r : Path, (dir.join r).normal = (dir.normal.join r).normal := by
  have hknown (p : Path) (file : Path) : (ofInsertions inserts).loader.canonicalize p = .ok file ↔
      p.normal = file ∧ ∃ before text, LastInsertion inserts before p text := by
    rw [canonicalize_eq_ok_iff, exists_comm]
    exact and_congr_right fun _ => exists_congr fun _ => text?_ofInsertions_iff
  refine ⟨fun p => ?_, fun p text => ?_, fun p file hfile => ⟨?_, canonicalize_canonicalize hfile⟩,
    fun p q file file' hfile hfile' => ?_, Path.normal_join⟩
  · simp only [hknown, exists_eq_left', exists_lastInsertion_iff]
  · rw [read_eq_ok_iff, text?_ofInsertions_iff]
  · obtain ⟨rfl, -⟩ := (hknown p file).mp hfile
    exact p.isCanonical_normal
  · obtain ⟨rfl, before, text, hp⟩ := (hknown p file).mp hfile
    obtain ⟨rfl, -⟩ := (hknown q file').mp hfile'
    constructor
    · exact fun heq => ⟨before, text, hp, hp.of_normal_eq heq⟩
    · rintro ⟨before', text', hp', hq'⟩
      exact hp'.normal_eq hq'

end Last

/-- A file that is inserted under two spellings of its path. -/
def respelled : List (Path × String) :=
  [(⟨"arch/x86/Kconfig"⟩, "old"), (⟨"/arch/./arm/../x86//Kconfig"⟩, "new")]

theorem respelled_answers :
    (ofInsertions respelled).loader.canonicalize ⟨"arch/x86/Kconfig"⟩ = .ok ⟨"/arch/x86/Kconfig"⟩ ∧
      (ofInsertions respelled).loader.canonicalize ⟨"../arch/x86/Kconfig/"⟩ = .ok ⟨"/arch/x86/Kconfig"⟩ ∧
      Path.IsCanonical ⟨"/arch/x86/Kconfig"⟩ ∧
      (∃ before, LastInsertion respelled before ⟨"arch/x86/Kconfig"⟩ "new") ∧
      ∃ before text, LastInsertion respelled before ⟨"arch/x86/Kconfig"⟩ text ∧
        LastInsertion respelled before ⟨"../arch/x86/Kconfig/"⟩ text := by
  obtain ⟨-, hread, hcanonical, hsame, -⟩ := ofInsertions_answers respelled
  have hplain : (ofInsertions respelled).loader.canonicalize ⟨"arch/x86/Kconfig"⟩ =
      .ok ⟨"/arch/x86/Kconfig"⟩ := by decide +kernel
  have hspelled : (ofInsertions respelled).loader.canonicalize ⟨"../arch/x86/Kconfig/"⟩ =
      .ok ⟨"/arch/x86/Kconfig"⟩ := by decide +kernel
  exact ⟨hplain, hspelled, (hcanonical _ _ hplain).1, (hread _ _).mp (by decide +kernel),
    (hsame _ _ _ _ hplain hspelled).mp rfl⟩

end MemoryTree

end KconfigLang
