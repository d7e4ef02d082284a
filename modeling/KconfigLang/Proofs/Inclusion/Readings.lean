import KconfigLang.Files.MemoryTree
import KconfigLang.Proofs.Grammar.Positions
import KconfigLang.Proofs.Inclusion.Numbering

/-!
# Reading without the cache

Without the cache a file is read as often as it is included. A few files that include one another several times are then
read more often than there are numbers.

- `Fills`: a step that registers some number of files, unless the last number comes into use.
- `fills_spliceAll`: a block of inclusions of one file.
- `Resolver.fills_includeSource` and `Resolver.fills_load`: an inclusion, and a file and what its tree is used for.
- `fills_cascade`: files that include one another.
- `run_fileSession_cascade`: a whole session.
-/

namespace KconfigLang

open SourceMap

/-! ## How many files are registered -/

/-- A session that remembers no trees and has counted its files from zero. -/
structure Session.Forgetful (s : Session) : Prop where
  forgets : s.parsed = []
  counted : s.sources.Counted 0

/-- From a session that remembers no trees a step yields a result in `Q` and registers another `n` files, unless it
registers as many as there are numbers. -/
def Fills {α : Type} (n : Nat) (Q : α → Prop) (step : SessionM α) : Prop :=
  ∀ s : Session, s.Forgetful → ∃ a s', step.run.run s = (.ok a, s') ∧ s'.Forgetful ∧ Q a ∧
    min UInt32.size (s.sources.size + n) ≤ s'.sources.size

section Rules

variable {α β : Type} {n m : Nat} {Q : α → Prop} {R : β → Prop} {step : SessionM α}

theorem fills_pure {a : α} (h : Q a) : Fills 0 Q (pure a) :=
  fun s hs => ⟨a, s, rfl, hs, h, Nat.min_le_right _ _⟩

theorem fills_get : Fills 0 (fun _ => True) get :=
  fun s hs => ⟨s, s, rfl, hs, trivial, Nat.min_le_right _ _⟩

theorem Fills.bind {f : α → SessionM β} (h : Fills n Q step) (hf : ∀ a, Q a → Fills m R (f a)) :
    Fills (n + m) R (step >>= f) := by
  intro s hs
  obtain ⟨a, s', hrun, hs', ha, hsize⟩ := h s hs
  obtain ⟨b, s'', hrun', hs'', hb, hsize'⟩ := hf a ha s' hs'
  refine ⟨b, s'', ?_, hs'', hb, by omega⟩
  rw [run_bind, hrun]
  exact hrun'

end Rules

namespace Stmt

/-- An inclusion with the text `value`. -/
def Asks (value : String) : Stmt → Prop
  | source src => src.path.value = value
  | config _ | menuconfig _ | choice _ | menu _ _ | ifBlock _ _ _ | comment _ => False

instance (value : String) : DecidablePred (Asks value)
  | source src => inferInstanceAs (Decidable (src.path.value = value))
  | config _ | menuconfig _ | choice _ | menu _ _ | ifBlock _ _ _ | comment _ => inferInstanceAs (Decidable False)

theorem asks_mapSpan {value : String} {t : Stmt} (h : t.Asks value) (f : Span → Span) : (t.mapSpan f).Asks value := by
  cases t with
  | source src => exact h
  | _ => exact h.elim

end Stmt

/-- A block of inclusions with one text. -/
theorem fills_spliceAll {n : Nat} {value : String} {included : Source → SessionM (List Stmt)}
    (hincluded : ∀ source : Source, source.path.value = value → Fills n (· = []) (included source))
    (emptied : Choice → SessionM (List Stmt)) :
    ∀ block : List Stmt, (∀ t ∈ block, t.Asks value) →
      Fills (block.length * n) (· = []) (Stmt.spliceAll included emptied block)
  | [], _ => by
    rw [List.length_nil, Nat.zero_mul]
    exact fills_pure rfl
  | t :: ts, h => by
    obtain ⟨ht, hts⟩ := List.forall_mem_cons.mp h
    cases t with
    | source source =>
      rw [List.length_cons, Nat.succ_mul, Nat.add_comm]
      refine (hincluded source ht).bind fun first hfirst => ?_
      refine (fills_spliceAll hincluded emptied ts hts).bind fun more hmore => fills_pure ?_
      rw [hfirst, hmore, List.append_nil]
    | _ => exact ht.elim

namespace Resolver

variable {β : Type} {r : Resolver} {n : Nat} {R : β → Prop} {stack : List Path} {source : Source} {path : Path}

theorem fills_locate (hstop : ∀ count, r.stop? count = none)
    (hpath : r.loader.canonicalize (r.target stack source) = .ok path) (hnew : path ∉ stack) (label : Path) :
    Fills 0 (· = some path) (r.locate label stack source) := by
  intro s hs
  refine ⟨some path, { s with expansions := s.expansions + 1 }, ?_, ⟨hs.forgets, hs.counted⟩, rfl, Nat.min_le_right _ _⟩
  rw [run_locate, hstop, lead, hpath]
  simp only [if_neg hnew]

/-- An inclusion that leads to a file, where nothing stops the session. -/
theorem fills_includeSource {label : Path} {room : Nat} {Q : List Stmt → Prop} (hstop : ∀ count, r.stop? count = none)
    (hpath : r.loader.canonicalize (r.target stack source) = .ok path) (hnew : path ∉ stack)
    (h : Fills n Q (r.load path >>= fun root => Stmt.spliceAll (r.includeSource label room (path :: stack))
      (refuseChoice label (path :: stack)) root.statements)) :
    Fills n Q (r.includeSource label (room + 1) stack source) := by
  rw [includeSource, ← Nat.zero_add n]
  refine (fills_locate hstop hpath hnew label).bind fun target hsome => ?_
  rw [hsome]
  exact h

/-- A file is read, and its tree is used. -/
theorem fills_load {text : String} {tree : Root} {f : Root → SessionM β}
    (hcache : r.limits.cache = false) (htext : r.loader.read path = .ok text) (htree : parse .root text = .ok tree)
    (hf : ∀ id, Fills n R (f { tree.inFile id with path := some path })) : Fills (1 + n) R (r.load path >>= f) := by
  intro s hs
  have hparse : parse ⟨s.sources.next⟩ text = .ok (tree.inFile ⟨s.sources.next⟩) := by
    rw [parse_inFile .root, htree]
    rfl
  have hlookup : s.parsed.lookup path = none := by
    rw [hs.forgets]
    rfl
  have hread : (r.load path).run.run s = (.ok { tree.inFile ⟨s.sources.next⟩ with path := some path },
      { s with sources := (s.sources.addWrapping path (some text)).2 }) := by
    rw [run_load_of_read hlookup, htext]
    simp only [hparse, hcache]
    rfl
  have hsize : min UInt32.size (s.sources.size + 1) ≤ (s.sources.addWrapping path (some text)).2.size :=
    hs.counted.size_add_ge path (some text)
  obtain ⟨b, s', hrun, hs', hb, hmore⟩ :=
    hf ⟨s.sources.next⟩ { s with sources := (s.sources.addWrapping path (some text)).2 }
      ⟨hs.forgets, hs.counted.add path (some text)⟩
  refine ⟨b, s', ?_, hs', hb, ?_⟩
  · rw [run_bind, hread]
    exact hrun
  · have hmore' : min UInt32.size ((s.sources.addWrapping path (some text)).2.size + n) ≤ s'.sources.size := hmore
    omega

end Resolver

/-! ## Files that include one another -/

/-- The path of a file: a letter. -/
def cascadePath (k : Nat) : Path :=
  ⟨String.ofList ['/', Char.ofNat (97 + k)]⟩

/-- The text of a file: four inclusions of the file before it, if there is one. -/
def cascadeText : Nat → String
  | 0 => ""
  | k + 1 => String.join (List.replicate 4 ("source \"" ++ (cascadePath k).text ++ "\"\n"))

/-- Files that include one another. -/
def cascadeTree : MemoryTree :=
  ⟨(List.range 17).map fun k => (cascadePath k, cascadeText k)⟩

/-- Sessions over the files. -/
def cascade (cache : Bool) : Resolver where
  loader := cascadeTree.loader
  expandPath := id
  base := ⟨"/"⟩
  limits := { cache }

/-- How often files are read where one of them is expanded. -/
def cascadeReadings : Nat → Nat
  | 0 => 1
  | k + 1 => 1 + 4 * cascadeReadings k

theorem loader_cascade (cache : Bool) {k : Nat} (hk : k < 17) : (cascadePath k).isAbsolute = true ∧
    (cascade cache).loader.canonicalize (cascadePath k) = .ok (cascadePath k) ∧
    (cascade cache).loader.read (cascadePath k) = .ok (cascadeText k) := by
  have hall : ∀ k < 17, (cascadePath k).isAbsolute = true ∧
      cascadeTree.loader.canonicalize (cascadePath k) = .ok (cascadePath k) ∧
      cascadeTree.loader.read (cascadePath k) = .ok (cascadeText k) := by
    decide +kernel
  rw [show (cascade cache).loader = cascadeTree.loader from rfl]
  exact hall k hk

theorem target_cascade (cache : Bool) {k : Nat} (hk : k < 17) (stack : List Path) {source : Source}
    (h : source.path.value = (cascadePath k).text) : (cascade cache).target stack source = cascadePath k := by
  unfold Resolver.target
  rw [show (cascade cache).expandPath source.path.value = (cascadePath k).text from h]
  exact if_pos (loader_cascade cache hk).1

theorem cascadePath_injective : ∀ k < 17, ∀ j < 17, cascadePath k = cascadePath j → k = j := by
  decide +kernel

theorem exists_tree_of_any {text : String} {P : Root → Prop} [DecidablePred P]
    (h : (parse .root text).toOption.any (P ·) = true) : ∃ tree, parse .root text = .ok tree ∧ P tree := by
  cases htree : parse .root text with
  | error e =>
    rw [htree] at h
    exact nomatch h
  | ok tree =>
    rw [htree] at h
    exact ⟨tree, rfl, of_decide_eq_true h⟩

section Cascade

variable {β : Type} {n : Nat} {R : β → Prop}

/-- The first file is empty. -/
theorem fills_first {g : Root → SessionM β} (hg : ∀ root : Root, root.statements = [] → Fills n R (g root)) :
    Fills (1 + n) R ((cascade false).load (cascadePath 0) >>= g) := by
  have hany : ((parse .root (cascadeText 0)).toOption.any fun root => root.statements = []) = true := by
    decide +kernel
  obtain ⟨tree, htree, hempty⟩ := exists_tree_of_any hany
  obtain ⟨-, -, htext⟩ := loader_cascade false (show 0 < 17 by decide)
  refine Resolver.fills_load rfl htext htree fun id => hg _ ?_
  rw [Root.inFile, Root.mapSpan, hempty]
  rfl

theorem parse_cascadeText : ∀ k < 16, ∃ tree, parse .root (cascadeText (k + 1)) = .ok tree ∧
    tree.statements.length = 4 ∧ ∀ t ∈ tree.statements, t.Asks (cascadePath k).text := by
  have hall : ∀ k < 16, ((parse .root (cascadeText (k + 1))).toOption.any fun root =>
      root.statements.length = 4 ∧ ∀ t ∈ root.statements, t.Asks (cascadePath k).text) = true := by
    decide +kernel
  exact fun k hk => exists_tree_of_any (hall k hk)

/-- The statements of all other files are four inclusions of the file before them. -/
theorem fills_next {k : Nat} (hk : k < 16) {g : Root → SessionM β}
    (hg : ∀ root : Root, root.statements.length = 4 → (∀ t ∈ root.statements, t.Asks (cascadePath k).text) →
      Fills n R (g root)) :
    Fills (1 + n) R ((cascade false).load (cascadePath (k + 1)) >>= g) := by
  obtain ⟨tree, htree, hlength, hasks⟩ := parse_cascadeText k hk
  obtain ⟨-, -, htext⟩ := loader_cascade false (k := k + 1) (by omega)
  refine Resolver.fills_load rfl htext htree fun id => hg _ ?_ ?_
  · rw [Root.inFile, Root.mapSpan, Stmt.mapSpanAll_eq_map, List.length_map, hlength]
  · rw [Root.inFile, Root.mapSpan, Stmt.mapSpanAll_eq_map]
    exact List.forall_mem_map.mpr fun t ht => Stmt.asks_mapSpan (hasks t ht) _

/-- A file is read and its inclusions are followed. All files that are being expanded come behind those that it leads
to, so that no inclusion leads to one of them. -/
theorem fills_cascade (label : Path) {k : Nat} (hk : k < 17) {room : Nat} (hroom : k ≤ room) {stack : List Path}
    (hstack : ∀ path ∈ stack, ∃ j < 17, k ≤ j ∧ path = cascadePath j) (emptied : Choice → SessionM (List Stmt))
    {f : Root → List Stmt → SessionM β} (hf : ∀ root, Fills 0 R (f root [])) :
    Fills (cascadeReadings k) R ((cascade false).load (cascadePath k) >>= fun root =>
      Stmt.spliceAll ((cascade false).includeSource label room stack) emptied root.statements >>= f root) := by
  induction k generalizing β room stack emptied with
  | zero =>
    refine fills_first (n := 0) fun root hempty => ?_
    rw [hempty]
    exact hf root
  | succ k ih =>
    obtain ⟨room, rfl⟩ := Nat.exists_eq_add_of_le' (Nat.le_trans (Nat.succ_le_succ (Nat.zero_le k)) hroom)
    have hk' : k < 17 := Nat.lt_of_succ_lt hk
    have hnew : cascadePath k ∉ stack := by
      intro hmem
      obtain ⟨j, hj, hle, heq⟩ := hstack _ hmem
      have hsame := cascadePath_injective k hk' j hj heq
      omega
    have hstack' : ∀ path ∈ cascadePath k :: stack, ∃ j < 17, k ≤ j ∧ path = cascadePath j := by
      refine List.forall_mem_cons.mpr ⟨⟨k, hk', Nat.le_refl k, rfl⟩, fun path hmem => ?_⟩
      obtain ⟨j, hj, hle, hpath⟩ := hstack path hmem
      exact ⟨j, hj, Nat.le_of_succ_le hle, hpath⟩
    have hincluded : ∀ source : Source, source.path.value = (cascadePath k).text →
        Fills (cascadeReadings k) (· = []) ((cascade false).includeSource label (room + 1) stack source) := by
      intro source hsource
      refine Resolver.fills_includeSource (fun _ => rfl) ?_ hnew ?_
      · rw [target_cascade false hk' stack hsource]
        exact (loader_cascade false hk').2.1
      · have hdeeper := ih (R := (· = [])) (f := fun _ => pure) hk' (Nat.le_of_succ_le_succ hroom) hstack'
          (Resolver.refuseChoice label (cascadePath k :: stack)) fun _ => fills_pure rfl
        simpa only [bind_pure] using hdeeper
    refine fills_next (n := 4 * cascadeReadings k + 0) (Nat.lt_of_succ_lt_succ hk) fun root hlength hasks => ?_
    rw [← hlength]
    refine (fills_spliceAll hincluded _ _ hasks).bind fun out hout => ?_
    rw [hout]
    exact hf root

end Cascade

theorem fills_fileSession_cascade :
    Fills (cascadeReadings 16) (fun _ => True) ((cascade false).fileSession (cascadePath 16)) := by
  unfold Resolver.fileSession
  rw [(loader_cascade false (by decide)).2.1]
  refine fills_cascade (cascadePath 16) (by decide) (by decide) ?_ _ fun root => ?_
  · exact List.forall_mem_singleton.mpr ⟨16, by decide, Nat.le_refl 16, rfl⟩
  · exact fills_get.bind fun s _ => fills_pure trivial

/-- Without the cache the last file is expanded, and there are no more numbers then. -/
theorem run_fileSession_cascade : ∃ tree s,
    ((cascade false).fileSession (cascadePath 16)).run.run .start = (.ok tree, s) ∧ UInt32.size ≤ s.sources.size := by
  obtain ⟨tree, s, hrun, -, -, hsize⟩ := fills_fileSession_cascade .start ⟨rfl, counted_empty⟩
  have hreadings : UInt32.size ≤ Session.start.sources.size + cascadeReadings 16 := by decide
  exact ⟨tree, s, hrun, by rwa [Nat.min_eq_left hreadings] at hsize⟩

end KconfigLang
