import KconfigLang.Command.Run
import KconfigLang.Files.MemoryTree
import KconfigLang.Proofs.Text.Expansion
import Mathlib.Data.List.Basic

/-!
# Variables of a command

The commands that follow inclusions expand paths with variables from three places: the command line, where the last
assignment counts, the settings file, which names a variable once, and the environment.

- `Settings.namesOnce_load`: a settings file names each variable once.
- `PathVariables`: what the names in paths stand for.
- `expandPath_onePass`: expansion is one pass over a path, for any values and for those of a command.
-/

namespace KconfigLang

namespace Settings

/-! ## The variables of a settings file -/

/-- Each variable is named once. -/
def NamesOnce (s : Settings) : Prop :=
  (s.env.map Prod.fst).Nodup

/-- A value behind a check that succeeds. -/
theorem exists_of_guarded {α β : Type} {p : Prop} [Decidable p] {x : Option α} {f : α → β} {b : β}
    (h : (do guard p; return f (← x)) = some b) : ∃ a, x = some a ∧ f a = b := by
  obtain ⟨-, -, h⟩ := Option.bind_eq_some_iff.mp h
  obtain ⟨a, ha, h⟩ := Option.bind_eq_some_iff.mp h
  exact ⟨a, ha, Option.some.inj h⟩

theorem exists_of_addVariable? {s s' : Settings} {name : String} {value : SettingsScalar}
    (h : s.addVariable? name value = some s') :
    ∃ text, s.env.lookup name = none ∧ s' = { s with env := s.env ++ [(name, text)] } := by
  obtain ⟨text, -, h⟩ := Option.bind_eq_some_iff.mp h
  cases hlookup : s.env.lookup name with
  | none =>
    rw [hlookup] at h
    exact ⟨text, rfl, (Option.some.inj h).symm⟩
  | some old =>
    rw [hlookup] at h
    cases h

theorem NamesOnce.addVariable? {s s' : Settings} {name : String} {value : SettingsScalar} (h : s.NamesOnce)
    (hs : s.addVariable? name value = some s') : s'.NamesOnce := by
  obtain ⟨text, hnew, rfl⟩ := exists_of_addVariable? hs
  have hname : name ∉ s.env.map Prod.fst := by
    intro hmem
    obtain ⟨⟨_, old⟩, hold, rfl⟩ := List.mem_map.mp hmem
    simpa using List.lookup_eq_none_iff.mp hnew _ hold
  show ((s.env ++ [(name, text)]).map Prod.fst).Nodup
  rw [List.map_append, List.nodup_append]
  refine ⟨h, List.pairwise_singleton _ _, fun a ha b hb => ?_⟩
  obtain rfl := List.mem_singleton.mp hb
  exact ne_of_mem_of_not_mem ha hname

/-- The other settings leave the variables as they are. -/
theorem env_set? {s s' : Settings} {key : String} {value : SettingsScalar} (h : s.set? key value = some s') :
    s'.env = s.env := by
  unfold set? at h
  split at h
  case h_6 => cases h
  all_goals
    obtain ⟨v, -, rfl⟩ := exists_of_guarded h
    rfl

/-- What a step keeps that may fail is kept by a run. -/
theorem invariant_of_foldlM {α σ : Type} {step : σ → α → Option σ} {P : σ → Prop}
    (hstep : ∀ s a s', P s → step s a = some s' → P s') {as : List α} {s s' : σ} (hs : P s)
    (h : as.foldlM step s = some s') : P s' := by
  induction as generalizing s with
  | nil =>
    obtain rfl := Option.some.inj h
    exact hs
  | cons a as ih =>
    rw [List.foldlM_cons] at h
    obtain ⟨s'', hs'', h⟩ := Option.bind_eq_some_iff.mp h
    exact ih (hstep s a s'' hs hs'') h

theorem namesOnce_add? {d d' : Draft} {line : SettingsLine} (hd : d.settings.NamesOnce)
    (h : d.add? line = some d') : d'.settings.NamesOnce := by
  -- A header adds nothing; a line in the table of variables, an inline table and a dotted key add variables.
  unfold Draft.add? at h
  split at h
  · split at h
    · obtain rfl := Option.some.inj h
      exact hd
    · cases h
  · cases h
  · obtain ⟨s, hs, rfl⟩ := Option.map_eq_some_iff.mp h
    split at hs
    · exact hd.addVariable? hs
    · show (s.env.map Prod.fst).Nodup
      rw [env_set? hs]
      exact hd
  · obtain ⟨s, hs, rfl⟩ := exists_of_guarded h
    exact invariant_of_foldlM (fun _ _ _ h' => h'.addVariable?) hd hs
  · obtain ⟨s, hs, rfl⟩ := exists_of_guarded h
    exact hd.addVariable? hs
  · cases h

theorem namesOnce_ofText? {text : String} {s : Settings} (h : ofText? text = some s) : s.NamesOnce := by
  obtain ⟨lines, -, h⟩ := Option.bind_eq_some_iff.mp h
  obtain ⟨d, hd, h⟩ := Option.bind_eq_some_iff.mp h
  obtain rfl := Option.some.inj h
  have hempty : ({} : Draft).settings.NamesOnce := List.nodup_nil
  exact invariant_of_foldlM (P := fun d : Draft => d.settings.NamesOnce) (fun _ _ _ => namesOnce_add?) hempty hd

/-- Settings name each variable once, whether they are read from a file or none is there. -/
theorem namesOnce_load {loader : Loader} {directory : Path} {file : Option Path} {s : Settings}
    (h : load loader directory file = .ok s) : s.NamesOnce := by
  have hfile {path : Path} (h : ofFile loader path = .ok s) : s.NamesOnce := by
    unfold ofFile at h
    split at h
    · cases h
    · split at h
      · cases h
      · rename_i text _ _ htext
        obtain rfl := Except.ok.inj h
        exact namesOnce_ofText? htext
  unfold load at h
  split at h
  · exact hfile h
  · split at h
    · exact hfile h
    · obtain rfl := Except.ok.inj h
      exact List.nodup_nil

end Settings

/-! ## What names stand for -/

/-- What a name in a path stands for: what the last assignment on the command line gives it, else what the settings
do, else what the environment does. -/
structure PathVariables (system : System) (settings : Settings) (tree : TreeOptions)
    (value : String → Option String) : Prop where
  ofCommandLine : ∀ before name v after, tree.env = before ++ (name, v) :: after → (∀ b ∈ after, b.1 ≠ name) →
    value name = some v
  ofSettings : ∀ name v, (∀ b ∈ tree.env, b.1 ≠ name) → (name, v) ∈ settings.env → value name = some v
  ofEnvironment : ∀ name, (∀ b ∈ tree.env, b.1 ≠ name) → (∀ b ∈ settings.env, b.1 ≠ name) →
    value name = system.env name

theorem lookup_eq_none {β : Type} {entries : List (String × β)} {name : String} (h : ∀ b ∈ entries, b.1 ≠ name) :
    entries.lookup name = none :=
  List.lookup_eq_none_iff.mpr fun b hb => by simpa using (h b hb).symm

/-- In a list that names each variable once an entry is found. -/
theorem lookup_of_mem {β : Type} {entries : List (String × β)} {name : String} {v : β}
    (h : (entries.map Prod.fst).Nodup) (hmem : (name, v) ∈ entries) : entries.lookup name = some v := by
  obtain ⟨before, after, rfl⟩ := List.append_of_mem hmem
  rw [List.map_append, List.nodup_append] at h
  refine List.lookup_eq_some_iff.mpr ⟨before, after, rfl, fun b hb => ?_⟩
  have hne := h.2.2 b.1 (List.mem_map_of_mem hb) name List.mem_cons_self
  simpa using hne.symm

theorem pathVariables_pathVariable (system : System) {settings : Settings} (h : settings.NamesOnce)
    (tree : TreeOptions) : PathVariables system settings tree (pathVariable system settings tree) := by
  have habsent {name : String} (hname : ∀ b ∈ tree.env, b.1 ≠ name) : tree.env.reverse.lookup name = none :=
    lookup_eq_none fun b hb => hname b (List.mem_reverse.mp hb)
  constructor
  · intro before name v after htree hafter
    have hlast : tree.env.reverse.lookup name = some v := by
      refine List.lookup_eq_some_iff.mpr ⟨after.reverse, before.reverse, by simp [htree], fun b hb => ?_⟩
      simpa using (hafter b (List.mem_reverse.mp hb)).symm
    rw [pathVariable, hlast]
    rfl
  · intro name v hname hmem
    rw [pathVariable, habsent hname, lookup_of_mem h hmem]
    rfl
  · intro name hname hsettings
    rw [pathVariable, habsent hname, lookup_eq_none hsettings]
    rfl

/-- **Paths are expanded in one pass from the left.** Where a reference begins it is replaced by what its name stands
for, or by nothing, and what it is replaced by is not read again; all other characters stay. Pieces that are taken one
behind the other are expanded one behind the other. For a command a name stands for what the last assignment on the
command line gives it, else the settings, else the environment. -/
theorem expandPath_onePass :
    (∀ (value : String → Option String) (raw out : String),
      Text.expand value raw = out ↔ Text.Expands value raw.toList out.toList) ∧
    (∀ (value : String → Option String) (ps : List Text.Piece), Text.Separated ps →
      Text.expand value (String.ofList (ps.flatMap Text.Piece.chars)) =
        String.join (ps.map fun p => Text.expand value (String.ofList p.chars))) ∧
    ∀ (loader : Loader) (directory : Path) (file : Option Path) (settings : Settings),
      Settings.load loader directory file = .ok settings →
      ∀ (system : System) (tree : TreeOptions), ∃ value, PathVariables system settings tree value ∧
        ∀ raw out, (treeResolver system settings tree).expandPath raw = out ↔
          Text.Expands value raw.toList out.toList := by
  refine ⟨fun _ _ _ => Text.expand_eq_iff, fun value _ h => Text.expand_flatMap h value, ?_⟩
  intro loader directory file settings hload system tree
  exact ⟨_, pathVariables_pathVariable system (Settings.namesOnce_load hload) tree, fun _ _ => Text.expand_eq_iff⟩

/-- A settings file that gives two variables, one of them a text that looks like a reference. -/
def nestedReference : MemoryTree :=
  ⟨[(⟨"/settings.toml"⟩, "[env]\nARCH = \"arm\"\nDIR = \"$ARCH\"\n")]⟩

/-- A command line that assigns a variable twice. -/
def assignedTwice : TreeOptions :=
  { sourceTree := none, env := [("ARCH", "x86"), ("ARCH", "riscv")], maxDepth := none }

theorem expandPath_nestedReference :
    (∃ settings, Settings.load nestedReference.loader ⟨"/"⟩ (some ⟨"/settings.toml"⟩) = .ok settings ∧
      ∃ value, PathVariables ⟨nestedReference.loader, fun _ => none⟩ settings assignedTwice value ∧
        value "ARCH" = some "riscv" ∧ value "DIR" = some "$ARCH" ∧ value "HOST" = none ∧
        Text.Expands value "$$ARCH/$(DIR)/$HOST".toList "$riscv/$ARCH/".toList) ∧
      Text.Separated [.plain '$', .bare ['A'], .braced ['B']] ∧
      Text.expand (fun _ => some "$A") "$$A$\x7bB\x7d" = "$" ++ "$A" ++ "$A" := by
  obtain ⟨-, hpieces, hcommand⟩ := expandPath_onePass
  have hload : Settings.load nestedReference.loader ⟨"/"⟩ (some ⟨"/settings.toml"⟩) =
      .ok { env := [("ARCH", "arm"), ("DIR", "$ARCH")] } := by decide +kernel
  have hseparated : Text.Separated [.plain '$', .bare ['A'], .braced ['B']] :=
    (Text.pieces_eq_iff.mp (show Text.pieces "$$A$\x7bB\x7d".toList = _ by decide +kernel)).2
  have hchars : String.ofList ([.plain '$', .bare ['A'], .braced ['B']].flatMap Text.Piece.chars) =
      "$$A$\x7bB\x7d" := by decide +kernel
  obtain ⟨value, hvalue, hexpand⟩ := hcommand _ _ _ _ hload ⟨nestedReference.loader, fun _ => none⟩ assignedTwice
  refine ⟨⟨_, hload, value, hvalue, hvalue.ofCommandLine [("ARCH", "x86")] _ _ [] rfl (List.forall_mem_nil _),
    hvalue.ofSettings _ _ (by decide) (by decide), hvalue.ofEnvironment _ (by decide) (by decide),
    (hexpand _ _).mp (by decide +kernel)⟩, hseparated, ?_⟩
  rw [← hchars, hpieces _ _ hseparated]
  decide +kernel

end KconfigLang
