import KconfigLang.Proofs.Files.SourceMap
import Mathlib.Data.List.Induction

/-!
# Registrations of files

A source map after any registrations, under numbers that are chosen freely and under fresh ones. The next number is one
above all numbers in use, so a fresh number is never in use. But there is none where the last number but one is in use,
even if others are left: the program stops there.

- `Registration`: a file is registered under a chosen number or under a fresh one.
- `SourceMap.registerAll?`: some registrations, with what they put into the map.
- `SourceMap.LastRegistered`: the last file that was registered under a number.
- `SourceMap.Reflects`: what a map and its next number say of the entries so far; `Reflects.insert` is the step.
- `SourceMap.add_fresh`: what registrations come to, and where the program stops at the next one.
-/

namespace KconfigLang

/-- A registration of a file. -/
inductive Registration where
  /-- Under a number that the file has already. -/
  | insert (id : FileId) (path : Path) (text : Option String)
  /-- Under a fresh number. -/
  | add (path : Path) (text : Option String)
  deriving DecidableEq, Repr

/-- The number before the last one. -/
def FileId.beforeLast : FileId :=
  ⟨UInt32.ofNat (UInt32.size - 2)⟩

namespace SourceMap

/-- What a registration puts into a map, a number and a file, and the map then. -/
def register? (map : SourceMap) : Registration → Option ((FileId × SourceFile) × SourceMap)
  | .insert id path text => (map.insert? id path text).map fun map' => ((id, ⟨path, text⟩), map')
  | .add path text => (map.add? path text).map fun (id, map') => ((id, ⟨path, text⟩), map')

/-- What some registrations put into a map, in order, and the map then. -/
def registerAll? (map : SourceMap) : List Registration → Option (List (FileId × SourceFile) × SourceMap)
  | [] => some ([], map)
  | r :: rs => do
    let (e, map) ← map.register? r
    let (es, map) ← map.registerAll? rs
    return (e :: es, map)

/-- The last entry with a number. -/
def LastRegistered (es : List (FileId × SourceFile)) (id : FileId) (file : SourceFile) : Prop :=
  ∃ before after, es = before ++ (id, file) :: after ∧ ∀ e ∈ after, e.1 ≠ id

variable {map map' : SourceMap} {es : List (FileId × SourceFile)} {id : FileId} {file : SourceFile} {path : Path}
  {text : Option String} {rs : List Registration} {r : Registration} {e : FileId × SourceFile}

theorem lastRegistered_concat_iff : LastRegistered (es ++ [e]) id file ↔
    e = (id, file) ∨ e.1 ≠ id ∧ LastRegistered es id file := by
  constructor
  · rintro ⟨before, after, h, hafter⟩
    rcases concat_eq_append_cons_iff.mp h with ⟨-, rfl, -⟩ | ⟨after, rfl, rfl⟩
    · exact .inl rfl
    · obtain ⟨hafter, he⟩ := List.forall_mem_append.mp hafter
      exact .inr ⟨he e List.mem_cons_self, before, after, rfl, hafter⟩
  · rintro (rfl | ⟨he, before, after, rfl, hafter⟩)
    · exact ⟨es, [], rfl, List.forall_mem_nil _⟩
    · refine ⟨before, after ++ [e], by simp, ?_⟩
      exact List.forall_mem_append.mpr ⟨hafter, List.forall_mem_singleton.mpr he⟩

/-! ## The next number -/

theorem toNat_max (a b : UInt32) : (max a b).toNat = max a.toNat b.toNat := by
  show (if a ≤ b then b else a).toNat = _
  split
  · rename_i h
    rw [Nat.max_eq_right (UInt32.le_iff_toNat_le.mp h)]
  · rename_i h
    rw [Nat.max_eq_left (Nat.le_of_not_le (mt UInt32.le_iff_toNat_le.mpr h))]

/-- What a map says of the entries that were put into it. -/
structure Reflects (map : SourceMap) (es : List (FileId × SourceFile)) : Prop where
  /-- A number stands for the file that was registered under it last. -/
  get? : ∀ id file, map.get? id = some file ↔ LastRegistered es id file
  /-- The next number is above all numbers. -/
  above : ∀ e ∈ es, e.1.index.toNat < map.next.toNat
  /-- The next number comes right behind one of them. -/
  behind : map.next = 0 ∨ ∃ e ∈ es, e.1.index.toNat + 1 = map.next.toNat

theorem reflects_empty : empty.Reflects [] where
  get? id file := by
    refine iff_of_false (Option.some_ne_none file).symm ?_
    rintro ⟨before, after, h, -⟩
    exact List.append_ne_nil_of_right_ne_nil before (List.cons_ne_nil _ _) h.symm
  above := List.forall_mem_nil _
  behind := .inl rfl

/-- A registration keeps to it. -/
theorem Reflects.insert (h : map.Reflects es) (hid : id ≠ .last) (path : Path) (text : Option String) :
    (map.insertWrapping id path text).Reflects (es ++ [(id, ⟨path, text⟩)]) := by
  have hsucc := toNat_index_succ hid
  have hnext : (map.insertWrapping id path text).next.toNat = max map.next.toNat (id.index.toNat + 1) :=
    hsucc ▸ toNat_max map.next (id.index + 1)
  refine ⟨fun key file => ?_, fun e he => ?_, ?_⟩
  · rw [lastRegistered_concat_iff, ← h.get?]
    show (put id ⟨path, text⟩ map.files).lookup key = _ ↔ _
    by_cases hkey : key = id
    · subst hkey
      rw [lookup_put_self]
      simp [eq_comm]
    · rw [lookup_put_of_ne hkey]
      simp [SourceMap.get?, Ne.symm hkey]
  · rw [hnext]
    rcases List.mem_append.mp he with he | he
    · exact Nat.lt_of_lt_of_le (h.above e he) (Nat.le_max_left _ _)
    · obtain rfl := List.mem_singleton.mp he
      exact Nat.lt_of_lt_of_le (Nat.lt_succ_self id.index.toNat) (Nat.le_max_right _ _)
  · rcases Nat.le_total (id.index.toNat + 1) map.next.toNat with hle | hle
    · rw [Nat.max_eq_left hle] at hnext
      refine h.behind.imp (fun hzero => ?_) fun ⟨e, he, hbehind⟩ => ?_
      · exact (UInt32.toNat_inj.mp hnext).trans hzero
      · exact ⟨e, List.mem_append_left _ he, hbehind.trans hnext.symm⟩
    · rw [Nat.max_eq_right hle] at hnext
      exact .inr ⟨_, List.mem_append_right _ List.mem_cons_self, hnext.symm⟩

theorem insert?_eq_some_iff : map.insert? id path text = some map' ↔
    id ≠ .last ∧ map.insertWrapping id path text = map' := by
  rw [insert?]
  split <;> simp [*]

/-- Under whatever number a file is registered, it is a number that is not the last. -/
theorem exists_insert_of_register? (h : map.register? r = some (e, map')) :
    e.1 ≠ .last ∧ map' = map.insertWrapping e.1 e.2.path e.2.text := by
  cases r with
  | insert id path text =>
    obtain ⟨_, hinsert, heq⟩ := Option.map_eq_some_iff.mp h
    obtain ⟨rfl, rfl⟩ := Prod.mk.inj heq
    obtain ⟨hid, rfl⟩ := insert?_eq_some_iff.mp hinsert
    exact ⟨hid, rfl⟩
  | add path text =>
    obtain ⟨⟨_, _⟩, hadd, heq⟩ := Option.map_eq_some_iff.mp h
    obtain ⟨rfl, rfl⟩ := Prod.mk.inj heq
    obtain ⟨_, hinsert, heq⟩ := Option.map_eq_some_iff.mp hadd
    obtain ⟨rfl, rfl⟩ := Prod.mk.inj heq
    obtain ⟨hid, rfl⟩ := insert?_eq_some_iff.mp hinsert
    exact ⟨hid, rfl⟩

/-- So it is after any registrations. -/
theorem Reflects.registerAll {new : List (FileId × SourceFile)} (h : map.Reflects es)
    (hrun : map.registerAll? rs = some (new, map')) : map'.Reflects (es ++ new) := by
  induction rs generalizing map es new with
  | nil =>
    obtain ⟨rfl, rfl⟩ := Prod.mk.inj (Option.some.inj hrun)
    rwa [List.append_nil]
  | cons r rs ih =>
    obtain ⟨⟨e, _⟩, hregister, hrun⟩ := Option.bind_eq_some_iff.mp hrun
    obtain ⟨⟨more, _⟩, hmore, heq⟩ := Option.bind_eq_some_iff.mp hrun
    obtain ⟨rfl, rfl⟩ := Prod.mk.inj (Option.some.inj heq)
    obtain ⟨hid, rfl⟩ := exists_insert_of_register? hregister
    rw [← List.singleton_append, ← List.append_assoc]
    exact ih (h.insert hid e.2.path e.2.text) hmore

/-! ## Fresh numbers and stops -/

section Next

variable (h : map.Reflects es)

include h

/-- The next number is not in use. -/
theorem Reflects.next_not_mem : (⟨map.next⟩ : FileId) ∉ es.map (·.1) := by
  intro hmem
  obtain ⟨e, he, hnext⟩ := List.mem_map.mp hmem
  have hlt := h.above e he
  rw [hnext] at hlt
  exact Nat.lt_irrefl _ hlt

/-- The next number is the last one if the one before it is in use, and only then. -/
theorem Reflects.full_iff : map.Full ↔ FileId.beforeLast ∈ es.map (·.1) := by
  have hend : FileId.last.index.toNat = 4294967295 := rfl
  have hbefore : FileId.beforeLast.index.toNat = 4294967294 := rfl
  constructor
  · intro hfull
    rcases h.behind with hzero | ⟨e, he, hsucc⟩
    · exact absurd (hzero.symm.trans hfull) (by decide)
    · rw [show map.next = FileId.last.index from hfull] at hsucc
      have heq : e.1.index = FileId.beforeLast.index := UInt32.toNat_inj.mp (by omega)
      exact List.mem_map.mpr ⟨e, he, congrArg FileId.mk heq⟩
  · intro hmem
    obtain ⟨e, he, hid⟩ := List.mem_map.mp hmem
    have hlt := h.above e he
    have hbound := map.next.toNat_lt
    rw [hid] at hlt
    exact UInt32.toNat_inj.mp (by omega)

end Next

/-- **Fresh numbers.** After any registrations for which the program does not stop, it stops at a fresh number if and
only if the last number but one is in use, and at a chosen number if and only if that is the last one. Otherwise a fresh
number is not in use, and the files that were registered before are kept. A number stands for the file that was
registered under it last, if there is one, and for its path. -/
theorem add_fresh (h : empty.registerAll? rs = some (es, map)) :
    (∀ path text, (map.add? path text = none ↔ FileId.beforeLast ∈ es.map (·.1)) ∧
      ∀ id map', map.add? path text = some (id, map') → id ∉ es.map (·.1) ∧
        map'.get? id = some ⟨path, text⟩ ∧ ∀ key ≠ id, map'.get? key = map.get? key) ∧
    (∀ id path text, map.insert? id path text = none ↔ id = .last) ∧
    (∀ id file, map.get? id = some file ↔ LastRegistered es id file) ∧
    ∀ id path, map.path? id = some path ↔ ∃ text, LastRegistered es id ⟨path, text⟩ := by
  have hreflects : map.Reflects es := reflects_empty.registerAll h
  refine ⟨fun path text => ⟨?_, fun id map' hadd => ?_⟩, fun id path text => ?_, hreflects.get?, fun id path => ?_⟩
  · rw [add?_eq_none_iff, hreflects.full_iff]
  · have hfull : ¬ map.Full := fun hfull => nomatch ((add?_eq_none_iff map path text).mpr hfull).symm.trans hadd
    rw [add?_of_not_full hfull] at hadd
    obtain ⟨rfl, rfl⟩ := Prod.mk.inj (Option.some.inj hadd)
    exact ⟨hreflects.next_not_mem, get?_add_self map path text, fun key hkey => get?_add_of_ne hkey path text⟩
  · rw [insert?]
    split <;> simp [*]
  · simp only [← hreflects.get?, path?, Option.map_eq_some_iff]
    constructor
    · rintro ⟨⟨path', text⟩, hget, rfl⟩
      exact ⟨text, hget⟩
    · rintro ⟨text, hget⟩
      exact ⟨_, hget, rfl⟩

/-- A file under the last number but one. -/
def lateFile : Registration :=
  .insert .beforeLast ⟨"/Kconfig"⟩ none

theorem lateFile_add : ∃ map, empty.registerAll? [lateFile] = some ([(.beforeLast, ⟨⟨"/Kconfig"⟩, none⟩)], map) ∧
    map.path? .beforeLast = some ⟨"/Kconfig"⟩ ∧ map.add? ⟨"/arch/Kconfig"⟩ none = none := by
  have hrun : empty.registerAll? [lateFile] =
      some ([(.beforeLast, ⟨⟨"/Kconfig"⟩, none⟩)], empty.insertWrapping .beforeLast ⟨"/Kconfig"⟩ none) := rfl
  obtain ⟨hadd, -, -, hpath⟩ := add_fresh hrun
  refine ⟨_, hrun, (hpath _ _).mpr ⟨none, [], [], rfl, List.forall_mem_nil _⟩, ?_⟩
  exact (hadd _ _).1.mpr List.mem_cons_self

/-- Behind it no file gets a fresh number, though the last number and all below are free. -/
theorem lateFile_stops : ((empty.registerAll? [lateFile]).map fun (es, map) =>
      (es.map (·.1), map.get? .root, map.get? .last, map.add? ⟨"/arch/Kconfig"⟩ none)) =
    some ([.beforeLast], none, none, none) := by
  decide

end SourceMap

end KconfigLang
