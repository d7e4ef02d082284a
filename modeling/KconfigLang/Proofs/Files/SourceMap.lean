import KconfigLang.Files.SourceMap
import Mathlib.Data.List.Basic
import Mathlib.Logic.Relation

/-!
# Numbers of files

Files that are registered under fresh numbers, one after the other.

- `SourceMap.Full`: the numbers have run out but for the last one.
- `SourceMap.overflowed_add_iff`: the file that is registered then is the first one for which the program stops.
- `SourceMap.Fresh`: the next number is above all that are in use, unless the last one is in use.
- `SourceMap.Names`: a number stands for a path. Once the last number is in use it stands for any path, since all
  further files are registered under it.
- `SourceMap.Names.add`: registering another file does not change what a number stands for.
- `SourceMap.nodup_paths_add`: a path that is registered once only.
- `SourceMap.Counted` and `SourceMap.Keeps`: fewer files than there are numbers, and what holds of numbers then.
- `SourceMap.Later`: what a map comes to with more files, which is what the program registers unless it stops.
-/

namespace KconfigLang

/-- What is looked up is in the list. -/
theorem mem_of_lookup {α β : Type} [BEq α] [LawfulBEq α] {key : α} {value : β} {entries : List (α × β)}
    (h : entries.lookup key = some value) : (key, value) ∈ entries := by
  obtain ⟨before, after, rfl, -⟩ := List.lookup_eq_some_iff.mp h
  exact List.mem_append_right before List.mem_cons_self

/-- An element of a list with one more behind it is that one, at the end, or an element of the list. -/
theorem concat_eq_append_cons_iff {α : Type} {xs before after : List α} {x y : α} :
    xs ++ [y] = before ++ x :: after ↔
      (xs = before ∧ y = x ∧ [] = after) ∨ ∃ more, xs = before ++ x :: more ∧ after = more ++ [y] := by
  constructor
  · intro h
    rcases List.eq_nil_or_concat' after with rfl | ⟨more, last, rfl⟩
    · obtain ⟨hxs, hy⟩ := List.append_inj' h rfl
      exact .inl ⟨hxs, List.singleton_inj.mp hy, rfl⟩
    · rw [← List.cons_append, ← List.append_assoc] at h
      obtain ⟨hxs, hy⟩ := List.append_inj' h rfl
      exact .inr ⟨more, hxs, by rw [List.singleton_inj.mp hy]⟩
  · rintro (⟨rfl, rfl, rfl⟩ | ⟨more, rfl, rfl⟩)
    · rfl
    · rw [List.append_assoc, List.cons_append]

namespace SourceMap

variable {map : SourceMap} {id key : FileId} {file : SourceFile} {files : List (FileId × SourceFile)}
  {path path' : Path} {text : Option String}

/-! ## Entries -/

theorem lookup_put_self : (put id file files).lookup id = some file := by
  induction files with
  | nil => simp [put]
  | cons entry files ih =>
    obtain ⟨k, old⟩ := entry
    rw [put]
    split
    · simp
    · rename_i hne
      split
      · simp
      · rw [List.lookup_cons, beq_false_of_ne hne]
        exact ih

theorem lookup_put_of_ne (h : key ≠ id) : (put id file files).lookup key = files.lookup key := by
  induction files with
  | nil => simp [put, h]
  | cons entry files ih =>
    obtain ⟨k, old⟩ := entry
    rw [put]
    split
    · rename_i heq
      rw [List.lookup_cons, List.lookup_cons, beq_false_of_ne h, beq_false_of_ne (heq ▸ h)]
    · split
      · rw [List.lookup_cons, beq_false_of_ne h]
      · rw [List.lookup_cons, List.lookup_cons, ih]

theorem mem_put {entry : FileId × SourceFile} (h : entry ∈ put id file files) :
    entry = (id, file) ∨ entry ∈ files := by
  induction files with
  | nil => exact .inl (List.mem_singleton.mp h)
  | cons first files ih =>
    obtain ⟨k, old⟩ := first
    rw [put] at h
    split at h
    · exact (List.mem_cons.mp h).imp_right (List.mem_cons_of_mem _)
    · split at h
      · exact List.mem_cons.mp h
      · rcases List.mem_cons.mp h with rfl | h
        · exact .inr List.mem_cons_self
        · exact (ih h).imp_right (List.mem_cons_of_mem _)

/-- The paths of a map, in the order of their numbers. -/
def paths (map : SourceMap) : List Path :=
  map.files.map (·.2.path)

theorem mem_paths_put (h : path ∈ (put id file files).map (·.2.path)) :
    path = file.path ∨ path ∈ files.map (·.2.path) := by
  obtain ⟨entry, hentry, rfl⟩ := List.mem_map.mp h
  rcases mem_put hentry with rfl | hold
  · exact .inl rfl
  · exact .inr (List.mem_map_of_mem hold)

theorem nodup_paths_put (h : (files.map (·.2.path)).Nodup) (hnew : file.path ∉ files.map (·.2.path)) :
    ((put id file files).map (·.2.path)).Nodup := by
  induction files with
  | nil => simp [put]
  | cons entry files ih =>
    obtain ⟨k, old⟩ := entry
    rw [List.map_cons, List.nodup_cons] at h
    rw [List.map_cons, List.mem_cons, not_or] at hnew
    rw [put]
    split
    · exact List.nodup_cons.mpr ⟨hnew.2, h.2⟩
    · split
      · exact List.nodup_cons.mpr ⟨by simpa using hnew, List.nodup_cons.mpr h⟩
      · refine List.nodup_cons.mpr ⟨fun hmem => ?_, ih h.2 hnew.2⟩
        exact (mem_paths_put hmem).elim (fun heq => hnew.1 heq.symm) h.1

theorem mem_paths_add (h : path' ∈ (map.addWrapping path text).2.paths) : path' = path ∨ path' ∈ map.paths :=
  mem_paths_put h

theorem nodup_paths_add (h : map.paths.Nodup) (hnew : path ∉ map.paths) :
    (map.addWrapping path text).2.paths.Nodup :=
  nodup_paths_put h hnew

/-! ## Fresh numbers -/

/-- The numbers have run out but for the last one: the next file gets it, and so do all after it. -/
def Full (map : SourceMap) : Prop :=
  map.next = FileId.last.index

/-- The number behind one that is not the last. -/
theorem toNat_index_succ (hid : id ≠ .last) : (id.index + 1).toNat = id.index.toNat + 1 := by
  have hlt := id.index.toNat_lt
  have hne : id.index.toNat ≠ FileId.last.index.toNat := fun h =>
    hid (congrArg FileId.mk (UInt32.toNat_inj.mp h))
  have hend : FileId.last.index.toNat = 4294967295 := rfl
  rw [UInt32.toNat_add]
  exact Nat.mod_eq_of_lt (by simp; omega)

theorem full_iff : map.Full ↔ (⟨map.next⟩ : FileId) = .last :=
  ⟨congrArg FileId.mk, congrArg FileId.index⟩

/-- Where numbers are left the next one is used up. -/
theorem toNat_next_add (h : ¬ map.Full) (path : Path) (text : Option String) :
    (map.addWrapping path text).2.next.toNat = map.next.toNat + 1 := by
  have hsucc : (map.next + 1).toNat = map.next.toNat + 1 := toNat_index_succ (mt full_iff.mpr h)
  show (if map.next ≤ map.next + 1 then map.next + 1 else map.next).toNat = _
  rw [if_pos (UInt32.le_iff_toNat_le.mpr (by omega)), hsucc]

theorem next_add (map : SourceMap) (path : Path) (text : Option String) :
    (map.next < (map.addWrapping path text).2.next ∧ ¬ map.Full) ∨ (map.Full ∧ (map.addWrapping path text).2.Full) := by
  by_cases hend : map.Full
  · refine .inr ⟨hend, ?_⟩
    show max map.next (map.next + 1) = _
    rw [show map.next = FileId.last.index from hend]
    rfl
  · refine .inl ⟨?_, hend⟩
    rw [UInt32.lt_iff_toNat_lt, toNat_next_add hend]
    exact Nat.lt_succ_self _

theorem Full.add (h : map.Full) (path : Path) (text : Option String) : (map.addWrapping path text).2.Full :=
  (next_add map path text).elim (fun hnext => absurd h hnext.2) And.right

theorem get?_add_self (map : SourceMap) (path : Path) (text : Option String) :
    (map.addWrapping path text).2.get? ⟨map.next⟩ = some ⟨path, text⟩ :=
  lookup_put_self

theorem get?_add_of_ne (h : id ≠ ⟨map.next⟩) (path : Path) (text : Option String) :
    (map.addWrapping path text).2.get? id = map.get? id :=
  lookup_put_of_ne h

/-- The last number comes into use with the first file for which there is no other. -/
theorem overflowed_add_iff (map : SourceMap) (path : Path) (text : Option String) :
    (map.addWrapping path text).2.overflowed = true ↔ map.Full ∨ map.overflowed = true := by
  rw [full_iff]
  unfold overflowed
  by_cases hnext : (⟨map.next⟩ : FileId) = .last
  · rw [← hnext, get?_add_self]
    exact iff_of_true rfl (.inl rfl)
  · rw [get?_add_of_ne (Ne.symm hnext)]
    exact (or_iff_right hnext).symm

/-- The first file of a map brings the last number into use if that is its own. -/
theorem overflowed_insert_iff (id : FileId) (path : Path) (text : Option String) :
    (empty.insertWrapping id path text).overflowed = true ↔ id = .last := by
  by_cases hid : id = .last
  · subst hid
    exact iff_of_true (congrArg Option.isSome lookup_put_self) rfl
  · refine iff_of_false (Bool.not_eq_true _ ▸ congrArg Option.isSome (lookup_put_of_ne (Ne.symm hid))) hid

/-- For that file the program stops. -/
theorem add?_eq_none_iff (map : SourceMap) (path : Path) (text : Option String) :
    map.add? path text = none ↔ map.Full := by
  rw [add?, Option.map_eq_none_iff, insert?, full_iff]
  by_cases hnext : (⟨map.next⟩ : FileId) = .last
  · exact iff_of_true (if_pos hnext) hnext
  · exact iff_of_false (by simp [hnext]) hnext

theorem add?_of_not_full (h : ¬ map.Full) (path : Path) (text : Option String) :
    map.add? path text = some (map.addWrapping path text) := by
  rw [add?, insert?, if_neg (mt full_iff.mpr h)]
  rfl

/-- The next number is above all numbers that are in use, unless the last one is in use, which is then the next one. -/
def Fresh (map : SourceMap) : Prop :=
  (∀ entry ∈ map.files, entry.1.index < map.next) ∨ map.Full ∧ map.overflowed = true

theorem fresh_empty : empty.Fresh :=
  .inl (List.forall_mem_nil _)

/-- If the next number is above all that are in use, the last one is not in use. -/
theorem not_overflowed_of_below (h : ∀ entry ∈ map.files, entry.1.index < map.next) : map.overflowed = false := by
  refine Bool.eq_false_iff.mpr fun hlast => ?_
  obtain ⟨file, hfile⟩ := Option.isSome_iff_exists.mp hlast
  have hlt : FileId.last.index.toNat < map.next.toNat := UInt32.lt_iff_toNat_lt.mp (h _ (mem_of_lookup hfile))
  have hend : FileId.last.index.toNat = 4294967295 := rfl
  have hnext := map.next.toNat_lt
  omega

theorem Fresh.add (h : map.Fresh) (path : Path) (text : Option String) : (map.addWrapping path text).2.Fresh := by
  rcases next_add map path text with ⟨hnext, hend⟩ | ⟨hend, hend'⟩
  · refine .inl fun entry hentry => ?_
    rcases mem_put hentry with rfl | hold
    · exact hnext
    · exact UInt32.lt_trans (h.resolve_right (fun hfull => hend hfull.1) entry hold) hnext
  · exact .inr ⟨hend', (overflowed_add_iff map path text).mpr (.inl hend)⟩

/-! ## What numbers stand for -/

/-- A number stands for a path. The last number may stand for any path once it is in use. -/
def Names (map : SourceMap) (id : FileId) (path : Path) : Prop :=
  map.path? id = some path ∨ map.overflowed = true ∧ id = .last

/-- As long as the last number is not in use, a number stands for the path that is registered under it. -/
theorem path?_of_names (h : map.Names id path) (hlast : map.overflowed = false) : map.path? id = some path :=
  h.resolve_right fun hany => Bool.false_ne_true (hlast.symm.trans hany.1)

/-- A registered file has its number. -/
theorem names_add (map : SourceMap) (path : Path) (text : Option String) :
    (map.addWrapping path text).2.Names (map.addWrapping path text).1 path :=
  .inl (congrArg (Option.map SourceFile.path) (get?_add_self map path text))

/-- Another file does not take the number of a file. -/
theorem Names.add (h : map.Names id path) (hfresh : map.Fresh) (path' : Path) (text : Option String) :
    (map.addWrapping path' text).2.Names id path := by
  rcases h with hpath | ⟨hlast, hid⟩
  · by_cases hid : id = ⟨map.next⟩
    · rcases hfresh with hbelow | ⟨hfull, -⟩
      · obtain ⟨file, hget, -⟩ := Option.map_eq_some_iff.mp hpath
        have hlt : map.next < map.next := by simpa [hid] using hbelow _ (mem_of_lookup hget)
        exact absurd hlt (UInt32.lt_irrefl _)
      · exact .inr ⟨(overflowed_add_iff map path' text).mpr (.inl hfull), hid.trans (full_iff.mp hfull)⟩
    · exact .inl ((congrArg (Option.map SourceFile.path) (get?_add_of_ne hid path' text)).trans hpath)
  · exact .inr ⟨(overflowed_add_iff map path' text).mpr (.inr hlast), hid⟩

/-! ## As many files as numbers -/

theorem length_le_length_put (id : FileId) (file : SourceFile) (files : List (FileId × SourceFile)) :
    files.length ≤ (put id file files).length := by
  induction files with
  | nil => exact Nat.zero_le _
  | cons entry files ih =>
    obtain ⟨k, old⟩ := entry
    rw [put]
    split
    · exact Nat.le_refl _
    · split
      · exact Nat.le_succ _
      · exact Nat.succ_le_succ ih

theorem length_put_le (id : FileId) (file : SourceFile) (files : List (FileId × SourceFile)) :
    (put id file files).length ≤ files.length + 1 := by
  induction files with
  | nil => exact Nat.le_refl _
  | cons entry files ih =>
    obtain ⟨k, old⟩ := entry
    rw [put]
    split
    · exact Nat.le_succ _
    · split
      · exact Nat.le_refl _
      · exact Nat.succ_le_succ ih

theorem length_put_of_new (h : ∀ entry ∈ files, entry.1 ≠ id) :
    (put id file files).length = files.length + 1 := by
  induction files with
  | nil => rfl
  | cons entry files ih =>
    obtain ⟨k, old⟩ := entry
    obtain ⟨hne, hmore⟩ := List.forall_mem_cons.mp h
    rw [put, if_neg (Ne.symm hne)]
    split
    · rfl
    · rw [List.length_cons, ih hmore, List.length_cons]

/-- With the files from the number `first` on every number below the next one is used up, or all numbers are. -/
def Counted (first : Nat) (map : SourceMap) : Prop :=
  (∀ entry ∈ map.files, entry.1.index < map.next) ∧ first + map.size = map.next.toNat ∨
    map.overflowed = true ∧ UInt32.size ≤ first + map.size

variable {first : Nat}

theorem counted_empty : empty.Counted 0 :=
  .inl ⟨List.forall_mem_nil _, rfl⟩

/-- A file under a chosen number is the first one. -/
theorem counted_insert (id : FileId) (path : Path) (text : Option String) :
    (empty.insertWrapping id path text).Counted id.index.toNat := by
  by_cases hid : id = .last
  · subst hid
    refine .inr ⟨(overflowed_insert_iff _ _ _).mpr rfl, ?_⟩
    show UInt32.size ≤ FileId.last.index.toNat + 1
    decide
  · have hmax : max 0 (id.index + 1) = id.index + 1 := if_pos UInt32.zero_le
    have hnext : (empty.insertWrapping id path text).next = id.index + 1 := hmax
    have hsucc := toNat_index_succ hid
    refine .inl ⟨fun entry hentry => ?_, ?_⟩
    · obtain rfl := List.mem_singleton.mp hentry
      rw [hnext, UInt32.lt_iff_toNat_lt, hsucc]
      exact Nat.lt_succ_self _
    · rw [hnext, hsucc]
      rfl

theorem size_le_size_add (map : SourceMap) (path : Path) (text : Option String) :
    map.size ≤ (map.addWrapping path text).2.size :=
  length_le_length_put _ _ _

/-- As long as the next number is above all that are in use, another file is one more. -/
theorem size_add (h : ∀ entry ∈ map.files, entry.1.index < map.next) (path : Path) (text : Option String) :
    (map.addWrapping path text).2.size = map.size + 1 :=
  length_put_of_new fun entry hentry heq => absurd (h entry hentry) (heq ▸ UInt32.lt_irrefl _)

theorem Counted.add (h : map.Counted first) (path : Path) (text : Option String) :
    (map.addWrapping path text).2.Counted first := by
  rcases h with ⟨hbelow, hsize⟩ | ⟨hlast, hsize⟩
  · have hgrow := size_add hbelow path text
    rcases next_add map path text with ⟨hnext, hend⟩ | ⟨hend, -⟩
    · refine .inl ⟨fun entry hentry => ?_, ?_⟩
      · rcases mem_put hentry with rfl | hold
        · exact hnext
        · exact UInt32.lt_trans (hbelow entry hold) hnext
      · rw [hgrow, toNat_next_add hend, ← hsize, Nat.add_assoc]
    · refine .inr ⟨(overflowed_add_iff map path text).mpr (.inl hend), Nat.le_of_eq ?_⟩
      rw [hgrow, ← Nat.add_assoc, hsize, show map.next = FileId.last.index from hend]
      rfl
  · refine .inr ⟨(overflowed_add_iff map path text).mpr (.inr hlast), ?_⟩
    exact Nat.le_trans hsize (Nat.add_le_add_left (size_le_size_add map path text) first)

/-- Another file is one more, unless all numbers are used up. -/
theorem Counted.size_add_ge (h : map.Counted 0) (path : Path) (text : Option String) :
    min UInt32.size (map.size + 1) ≤ (map.addWrapping path text).2.size := by
  rcases h with ⟨hbelow, -⟩ | ⟨-, hfull⟩
  · rw [size_add hbelow]
    exact Nat.min_le_right _ _
  · have hmono := size_le_size_add map path text
    omega

/-- The last number comes into use when all numbers are used up. -/
theorem Counted.overflowed_iff (h : map.Counted first) :
    map.overflowed = true ↔ UInt32.size ≤ first + map.size := by
  rcases h with ⟨hbelow, hsize⟩ | ⟨hlast, hsize⟩
  · refine iff_of_false (by simp [not_overflowed_of_below hbelow]) ?_
    rw [hsize]
    exact Nat.not_le_of_lt map.next.toNat_lt
  · exact iff_of_true hlast hsize

/-- A number stands for a file, unless there are as many files as numbers. -/
def Keeps (map : SourceMap) (id : FileId) (file : SourceFile) : Prop :=
  map.get? id = some file ∨ UInt32.size ≤ map.size

theorem get?_of_keeps (h : map.Keeps id file) (hsize : map.size < UInt32.size) : map.get? id = some file :=
  h.resolve_right (Nat.not_le_of_lt hsize)

theorem keeps_add (map : SourceMap) (path : Path) (text : Option String) :
    (map.addWrapping path text).2.Keeps (map.addWrapping path text).1 ⟨path, text⟩ :=
  .inl (get?_add_self map path text)

/-- Another file does not take the number of a file. -/
theorem Keeps.add (h : map.Keeps id file) (hcounted : map.Counted 0) (path : Path) (text : Option String) :
    (map.addWrapping path text).2.Keeps id file := by
  have hmono := size_le_size_add map path text
  rcases h with hget | hfull
  · rcases hcounted with ⟨hbelow, -⟩ | ⟨-, hfull⟩
    · refine .inl ((get?_add_of_ne ?_ path text).trans hget)
      rintro rfl
      have hlt : map.next < map.next := hbelow (⟨map.next⟩, file) (mem_of_lookup hget)
      exact absurd hlt (UInt32.lt_irrefl _)
    · exact .inr (Nat.le_trans (by simpa using hfull) hmono)
  · exact .inr (Nat.le_trans hfull hmono)

/-! ## More files -/

section More

variable {known : Path → Prop} {later : SourceMap}

/-- Another file, one of the known paths, is registered under the next number. -/
def Adds (known : Path → Prop) (map map' : SourceMap) : Prop :=
  ∃ path text, known path ∧ map' = (map.addWrapping path text).2

/-- Such a file is registered, and the program does not stop. -/
def Registers? (known : Path → Prop) (map map' : SourceMap) : Prop :=
  ∃ path text id, known path ∧ map.add? path text = some (id, map')

/-- Any number of such files have been registered. -/
def Later (known : Path → Prop) : SourceMap → SourceMap → Prop :=
  Relation.ReflTransGen (Adds known)

theorem Later.counted (h : Later known map later) (hmap : map.Counted first) : later.Counted first := by
  induction h with
  | refl => exact hmap
  | tail _ hadds ih =>
    obtain ⟨path, text, -, rfl⟩ := hadds
    exact ih.add path text

theorem Later.known_of_mem_paths (h : Later known map later) (hmap : ∀ path ∈ map.paths, known path) :
    ∀ path ∈ later.paths, known path := by
  induction h with
  | refl => exact hmap
  | tail _ hadds ih =>
    obtain ⟨path, text, hknown, rfl⟩ := hadds
    intro path' hpath'
    rcases mem_paths_add hpath' with rfl | hold
    · exact hknown
    · exact ih path' hold

/-- The last number stays in use. -/
theorem Later.overflowed (h : Later known map later) (hmap : map.overflowed = true) : later.overflowed = true := by
  induction h with
  | refl => exact hmap
  | tail _ hadds ih =>
    obtain ⟨path, text, -, rfl⟩ := hadds
    exact (overflowed_add_iff _ path text).mpr (.inr ih)

/-- As long as the last number is not in use the program has registered all the files. -/
theorem Later.registers (h : Later known map later) (hlater : later.overflowed = false) :
    Relation.ReflTransGen (Registers? known) map later := by
  induction h with
  | refl => exact .refl
  | @tail before after _ hadds ih =>
    obtain ⟨path, text, hknown, rfl⟩ := hadds
    obtain ⟨hfull, hbefore⟩ : ¬ before.Full ∧ before.overflowed = false := by
      simpa [hlater] using (overflowed_add_iff before path text).not
    exact (ih hbefore).tail ⟨path, text, _, hknown, add?_of_not_full hfull path text⟩

/-- If the last number is in use the program has stopped at one of the files. -/
theorem Later.exists_stop (h : Later known map later) (hmap : map.overflowed = false)
    (hlater : later.overflowed = true) :
    ∃ stop, Relation.ReflTransGen (Registers? known) map stop ∧ ∀ path text, stop.add? path text = none := by
  induction h with
  | refl => exact absurd (hmap.symm.trans hlater) Bool.false_ne_true
  | @tail before after hbefore hadds ih =>
    obtain ⟨path, text, -, rfl⟩ := hadds
    cases hlast : before.overflowed with
    | true => exact ih hlast
    | false =>
      have hfull : before.Full :=
        ((overflowed_add_iff before path text).mp hlater).resolve_right (by simp [hlast])
      exact ⟨before, Later.registers hbefore hlast, fun path text => (add?_eq_none_iff before path text).mpr hfull⟩

end More

end SourceMap

end KconfigLang
