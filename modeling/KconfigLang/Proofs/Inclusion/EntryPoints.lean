import KconfigLang.Files.MemoryTree
import KconfigLang.Proofs.Inclusion.Cache

/-!
# Entry points

A session that starts with the tree of a file goes the same way as one that starts with its path. It has no text
for the file and does not remember its tree, and neither is asked for: where the file is included again both
sessions report a cycle before they would read it.

- `SourceMap.withoutText`: a map without the text of one file.
- `Resolver.Twins`: what holds of the two sessions at every point.
- `Resolver.SameAt`: steps with the same result in both.
- `Resolver.resolveRoot_sameOutcome`: whole configurations.
-/

namespace KconfigLang

/-! ## Maps without the text of a file -/

namespace SourceMap

variable {map : SourceMap} {id key : FileId} {files : List (FileId × SourceFile)}

/-- An entry, without its text if it is that of the file `id`. -/
def forgetText (id : FileId) (entry : FileId × SourceFile) : FileId × SourceFile :=
  (entry.1, if entry.1 = id then { entry.2 with text := none } else entry.2)

/-- A map without the text of the file `id`. -/
def withoutText (map : SourceMap) (id : FileId) : SourceMap :=
  { map with files := map.files.map (forgetText id) }

theorem put_forgetText (h : key ≠ id) (file : SourceFile) :
    put key file (files.map (forgetText id)) = (put key file files).map (forgetText id) := by
  have hkeep : forgetText id (key, file) = (key, file) := by simp [forgetText, h]
  induction files with
  | nil => simp [put, hkeep]
  | cons entry files ih =>
    obtain ⟨k, old⟩ := entry
    simp only [List.map_cons, forgetText, put]
    split
    · rw [List.map_cons, hkeep]
    · split
      · rw [List.map_cons, List.map_cons, hkeep]
        rfl
      · rw [List.map_cons, ← ih]
        rfl

theorem lookup_forgetText (key : FileId) : (files.map (forgetText id)).lookup key =
    (files.lookup key).map fun file => if key = id then { file with text := none } else file := by
  induction files with
  | nil => rfl
  | cons entry files ih =>
    obtain ⟨k, file⟩ := entry
    by_cases hk : key = k
    · subst hk
      simp [forgetText]
    · rw [List.map_cons, List.lookup_cons, List.lookup_cons, beq_false_of_ne hk]
      simp [forgetText, beq_false_of_ne hk, ih]

/-- Another file is registered alike. -/
theorem add_withoutText (h : (⟨map.next⟩ : FileId) ≠ id) (path : Path) (text : Option String) :
    (map.withoutText id).addWrapping path text =
      ((map.addWrapping path text).1, (map.addWrapping path text).2.withoutText id) := by
  simp only [addWrapping, insertWrapping, withoutText, put_forgetText h]

@[simp] theorem path?_withoutText (map : SourceMap) (id key : FileId) :
    (map.withoutText id).path? key = map.path? key := by
  simp only [path?, get?, withoutText, lookup_forgetText, Option.map_map]
  congr 1
  funext file
  simp only [Function.comp]
  split <;> rfl

/-- The first number is not handed out again. -/
theorem next_add_ne_zero (map : SourceMap) (path : Path) (text : Option String) :
    (map.addWrapping path text).2.next ≠ 0 := by
  rcases next_add map path text with ⟨hlt, -⟩ | ⟨-, hfull⟩
  · rintro hzero
    rw [hzero] at hlt
    exact absurd hlt (UInt32.not_lt_zero)
  · rw [hfull]
    decide

end SourceMap

open SourceMap

namespace Resolver

/-! ## The two sessions -/

/-- A session that has read the root `file` and one that was given its tree, come equally far. -/
structure Twins (file : Path) (text : String) (s u : Session) : Prop where
  expansions : u.expansions = s.expansions
  /-- The trees of all other files are remembered alike. -/
  parsed : ∀ path, path ≠ file → u.parsed.lookup path = s.parsed.lookup path
  sources : u.sources = s.sources.withoutText .root
  root : s.sources.get? .root = some ⟨file, some text⟩
  next : s.sources.next ≠ 0

/-- A step has the same result in both sessions, which then again have come equally far; `Q` holds of what it
yields. -/
def SameAt {α : Type} (file : Path) (text : String) (Q : α → Prop) (step : SessionM α) (s u : Session) : Prop :=
  ∃ result s' u', step.run.run s = (result, s') ∧ step.run.run u = (result, u') ∧ Twins file text s' u' ∧
    ∀ a, result = .ok a → Q a

section Steps

variable {α β : Type} {file : Path} {text : String} {Q : α → Prop} {R : β → Prop} {step : SessionM α}
  {s u : Session}

theorem same_pure {a : α} (h : Twins file text s u) (ha : Q a) : SameAt file text Q (pure a) s u :=
  ⟨.ok a, s, u, rfl, rfl, h, fun _ heq => Except.ok.inj heq ▸ ha⟩

theorem same_throw {e : ResolveError} (h : Twins file text s u) : SameAt file text Q (throw e) s u :=
  ⟨.error e, s, u, rfl, rfl, h, fun _ heq => nomatch heq⟩

/-- What is done with a session is the same if it depends on nothing in which the two differ. -/
theorem same_get_bind {f : Session → SessionM α} (hf : f u = f s) (h : SameAt file text Q (f s) s u) :
    SameAt file text Q (get >>= f) s u := by
  unfold SameAt
  simp only [run_bind, run_get, hf]
  exact h

theorem SameAt.bind {f : α → SessionM β} (h : SameAt file text Q step s u)
    (hf : ∀ a s u, Twins file text s u → Q a → SameAt file text R (f a) s u) :
    SameAt file text R (step >>= f) s u := by
  obtain ⟨result, s', u', hs, hu, htwins, hresult⟩ := h
  unfold SameAt
  rw [run_bind, run_bind, hs, hu]
  cases result with
  | error e => exact ⟨.error e, s', u', rfl, rfl, htwins, fun _ heq => nomatch heq⟩
  | ok a => exact hf a s' u' htwins (hresult a rfl)

end Steps

section Files

variable {r : Resolver} {file path : Path} {text : String} {s u : Session}

/-- Both sessions register another file. -/
theorem Twins.add (h : Twins file text s u) (path : Path) (text' : Option String) :
    Twins file text { s with sources := (s.sources.addWrapping path text').2 }
      { u with sources := (u.sources.addWrapping path text').2 } where
  expansions := h.expansions
  parsed := h.parsed
  sources := by
    have hnew : (⟨s.sources.next⟩ : FileId) ≠ .root := fun hroot => h.next (FileId.mk.inj hroot)
    rw [h.sources, add_withoutText hnew]
  root := by
    refine (lookup_put_of_ne ?_).trans h.root
    exact fun hroot => h.next (FileId.mk.inj hroot).symm
  next := next_add_ne_zero s.sources path text'

/-- Both sessions remember another tree, if they remember trees. -/
theorem Twins.remember (h : Twins file text s u) (cache : Bool) (path : Path) (root : Root) :
    Twins file text { s with parsed := if cache then (path, root) :: s.parsed else s.parsed }
      { u with parsed := if cache then (path, root) :: u.parsed else u.parsed } where
  expansions := h.expansions
  parsed := by
    intro other hother
    cases cache with
    | false => exact h.parsed other hother
    | true =>
      show List.lookup other ((path, root) :: u.parsed) = List.lookup other ((path, root) :: s.parsed)
      rw [List.lookup_cons, List.lookup_cons, h.parsed other hother]
  sources := h.sources
  root := h.root
  next := h.next

/-- Both sessions load a file alike that is not the root. -/
theorem same_load (h : Twins file text s u) (hpath : path ≠ file) :
    SameAt file text (fun _ => True) (r.load path) s u := by
  have hlookup := h.parsed path hpath
  have hnext : u.sources.next = s.sources.next := by
    rw [h.sources]
    rfl
  cases hknown : s.parsed.lookup path with
  | some root =>
    exact ⟨.ok root, s, u, run_load_of_lookup hknown, run_load_of_lookup (hlookup.trans hknown), h,
      fun _ _ => trivial⟩
  | none =>
    unfold SameAt
    rw [run_load_of_read hknown, run_load_of_read (hlookup.trans hknown), hnext]
    cases r.loader.read path with
    | error e => exact ⟨_, _, _, rfl, rfl, h, fun _ _ => trivial⟩
    | ok content =>
      simp only
      cases parse ⟨s.sources.next⟩ content with
      | error e => exact ⟨_, _, _, rfl, rfl, h.add path (some content), fun _ _ => trivial⟩
      | ok tree =>
        exact ⟨_, _, _, rfl, rfl, (h.add path (some content)).remember r.limits.cache path _, fun _ _ => trivial⟩

/-- An inclusion leads to the same file in both sessions, and not to one that is being expanded. -/
theorem same_locate (h : Twins file text s u) (label : Path) (stack : List Path) (source : Source) :
    SameAt file text (fun target => ∀ path, target = some path → path ∉ stack) (r.locate label stack source)
      s u := by
  unfold SameAt
  rw [run_locate, run_locate, h.expansions]
  cases r.stop? s.expansions with
  | some error => exact ⟨_, _, _, rfl, rfl, h, fun _ heq => nomatch heq⟩
  | none =>
    refine ⟨_, _, _, rfl, rfl, { h with expansions := rfl }, fun target hlead path hpath => ?_⟩
    subst hpath
    exact (locates_of_lead hlead).2

theorem same_refuseChoice (h : Twins file text s u) (label : Path) (stack : List Path) (c : Choice) :
    SameAt file text (fun _ => True) (refuseChoice label stack c) s u := by
  refine same_get_bind ?_ (same_throw h)
  rw [h.sources, path?_withoutText]

end Files

/-! ## Inclusions -/

section Inclusions

variable {r : Resolver} {file : Path} {text : String}

theorem respected_same (file : Path) (text : String) :
    Respected fun {_} step _ => ∀ s u, Twins file text s u → SameAt file text (fun _ => True) step s u where
  pure _ _ _ h := same_pure h trivial
  bind hstep hf s u h := (hstep s u h).bind fun a s u h _ => hf a s u h

/-- A block is spliced alike if inclusions are. -/
theorem same_spliceAll {included : Source → SessionM (List Stmt)} {emptied : Choice → SessionM (List Stmt)}
    (hincluded : ∀ src s u, Twins file text s u → SameAt file text (fun _ => True) (included src) s u)
    (hemptied : ∀ c s u, Twins file text s u → SameAt file text (fun _ => True) (emptied c) s u) :
    ∀ (block : List Stmt) (s u : Session), Twins file text s u →
      SameAt file text (fun _ => True) (Stmt.spliceAll included emptied block) s u :=
  @Respected.spliceAll _ included included emptied emptied (respected_same file text) hincluded hemptied

/-- An inclusion yields the same statements in both sessions while the root is being expanded. -/
theorem same_includeSource (label : Path) (room : Nat) {stack : List Path} (hstack : file ∈ stack)
    (source : Source) {s u : Session} (h : Twins file text s u) :
    SameAt file text (fun _ => True) (r.includeSource label room stack source) s u := by
  induction room generalizing stack source s u with
  | zero =>
    refine (same_locate h label stack source).bind fun target s u h _ => ?_
    cases target with
    | none => exact same_pure h trivial
    | some path => exact same_throw h
  | succ room ih =>
    refine (same_locate h label stack source).bind fun target s u h htarget => ?_
    cases target with
    | none => exact same_pure h trivial
    | some path =>
      -- The root is on the stack, so it is not what is loaded here.
      have hpath : path ≠ file := fun heq => htarget path rfl (heq ▸ hstack)
      refine (same_load h hpath).bind fun root s u h _ => ?_
      exact same_spliceAll (fun src _ _ h => ih (List.mem_cons_of_mem path hstack) src h)
        (fun c _ _ h => same_refuseChoice h label (path :: stack) c) root.statements s u h

end Inclusions

/-! ## Whole configurations -/

/-- The outcomes of two sessions of which one has read the text of the root and the other has none. -/
def SameOutcome (file : Path) (text : String) :
    Except ResolveError ResolvedTree → Except ResolveError ResolvedTree → Prop
  | .ok tree, .ok tree' => tree'.root = tree.root ∧ tree'.mainMenu = tree.mainMenu ∧
      tree'.statements = tree.statements ∧ (∀ id, tree'.sources.path? id = tree.sources.path? id) ∧
      tree.sources.get? tree.root = some ⟨file, some text⟩ ∧
      tree'.sources = tree.sources.withoutText tree.root
  | .error e, .error e' => e' = e
  | _, _ => False

section Start

variable {file : Path} {text : String} {root : Root}

/-- The session that has read the root. -/
def startRead (r : Resolver) (file : Path) (text : String) (root : Root) : Session :=
  { Session.start with
    sources := (SourceMap.empty.addWrapping file (some text)).2
    parsed := if r.limits.cache then [(file, { root with path := some file })] else [] }

/-- The session that was given the tree of the root. -/
def startGiven (file : Path) : Session :=
  { Session.start with sources := SourceMap.empty.insertWrapping .root file none }

theorem twins_start (r : Resolver) (file : Path) (text : String) (root : Root) :
    Twins file text (r.startRead file text root) (startGiven file) where
  expansions := rfl
  parsed := by
    intro path hpath
    unfold startRead
    cases r.limits.cache with
    | false => rfl
    | true => simp [startGiven, Session.start, List.lookup_cons, beq_false_of_ne hpath]
  sources := rfl
  root := rfl
  next := next_add_ne_zero .empty file (some text)

/-- From there on both sessions expand the same tree. -/
theorem sameOutcome_finish (r : Resolver) (label : Path) (path path' : Option Path) (hfile : root.file = .root)
    {s u : Session} (h : Twins file text s u) :
    SameOutcome file text ((r.finish label [file] { root with path := path }).run.run s).1
      ((r.finish label [file] { root with path := path' }).run.run u).1 := by
  have hblock : SameAt file text (fun _ => True) (r.expandBlock label [file] root.statements) s u :=
    same_spliceAll (fun src _ _ h => same_includeSource label _ List.mem_cons_self src h)
      (fun c _ _ h => same_refuseChoice h label [file] c) root.statements s u h
  obtain ⟨result, s', u', hs, hu, htwins, -⟩ := hblock
  unfold finish
  rw [run_bind, run_bind, hs, hu]
  cases result with
  | error e => rfl
  | ok block =>
    refine ⟨rfl, rfl, rfl, fun id => ?_, ?_, ?_⟩
    · show u'.sources.path? id = s'.sources.path? id
      rw [htwins.sources, path?_withoutText]
    · show s'.sources.get? root.file = _
      rw [hfile, htwins.root]
    · show u'.sources = s'.sources.withoutText root.file
      rw [hfile, htwins.sources]

end Start

/-- **Entry points**: the session that starts with the path of a file and the one that starts with the tree of
the file fail with the same error or yield the same configuration, the text of the root apart. -/
theorem resolveRoot_sameOutcome (r : Resolver) (path file : Path) (text : String) (root : Root)
    (hpath : r.loader.canonicalize path = .ok file) (htext : r.loader.read file = .ok text)
    (hroot : parse .root text = .ok root) :
    SameOutcome file text (r.resolveFile path) (r.resolveRoot { root with path := some path }) := by
  have hfile : root.file = .root := congrArg Root.file (inFile_of_parse hroot).symm
  have hread : (r.load file).run.run .start = (.ok { root with path := some file }, r.startRead file text root) := by
    have hparse : parse ⟨Session.start.sources.next⟩ text = .ok root := hroot
    rw [run_load_of_read rfl, htext]
    simp only [hparse]
    rfl
  have hgiven : r.canonicalOrSelf path = file := by
    rw [canonicalOrSelf, hpath]
  have hs : r.resolveFile path =
      ((r.finish path [file] { root with path := some file }).run.run (r.startRead file text root)).1 := by
    unfold resolveFile fileSession
    rw [hpath]
    simp only
    rw [run_bind, hread]
  have hu : r.resolveRoot { root with path := some path } =
      ((r.finish path [file] { root with path := some path }).run.run (startGiven file)).1 := by
    unfold resolveRoot rootSession
    simp only [Option.map_some, hgiven, Option.getD_some, hfile]
    rw [run_bind, run_modify]
    rfl
  rw [hs, hu]
  exact sameOutcome_finish r path (some file) (some path) hfile (r.twins_start file text root)

/-- A root that is included again by the file that it includes. -/
def backTree : MemoryTree :=
  ⟨[(⟨"/Kconfig"⟩, "config A\n\tbool\nosource \"part\"\n"), (⟨"/part"⟩, "config B\nrsource \"./Kconfig\"\n")]⟩

/-- A session over the files of `backTree`. -/
def back : Resolver :=
  { loader := backTree.loader, expandPath := id, base := ⟨"/"⟩ }

theorem back_sameOutcome : ∃ text root, back.loader.canonicalize ⟨"Kconfig"⟩ = .ok ⟨"/Kconfig"⟩ ∧
    back.loader.read ⟨"/Kconfig"⟩ = .ok text ∧ parse .root text = .ok root ∧
    SameOutcome ⟨"/Kconfig"⟩ text (back.resolveFile ⟨"Kconfig"⟩)
      (back.resolveRoot { root with path := some ⟨"Kconfig"⟩ }) := by
  have hpath : back.loader.canonicalize ⟨"Kconfig"⟩ = .ok ⟨"/Kconfig"⟩ := by decide +kernel
  have htext : back.loader.read ⟨"/Kconfig"⟩ = .ok "config A\n\tbool\nosource \"part\"\n" := by
    decide +kernel
  obtain ⟨root, hroot⟩ := exists_ok_of_isOk
    (x := parse .root "config A\n\tbool\nosource \"part\"\n") (by decide +kernel)
  exact ⟨_, root, hpath, htext, hroot,
    resolveRoot_sameOutcome back ⟨"Kconfig"⟩ ⟨"/Kconfig"⟩ _ root hpath htext hroot⟩

end Resolver

end KconfigLang
