import KconfigLang.Files.MemoryTree
import KconfigLang.Inclusion.Resolve
import KconfigLang.Proofs.Grammar.PlainTokens
import KconfigLang.Proofs.Grammar.Positions
import KconfigLang.Proofs.Inclusion.Yields

/-!
# Inclusion as text

Inclusions are resolved in trees, and yet the outcome is that of a single text: the tokens of the root file
with each inclusion replaced by the tokens of its file.

- `Spliced`: the token list that a file becomes.
- `Inert`: tokens that splicing leaves alone.
- `Inlines`: some tokens become those of statements that say the same as a spliced block.
- `resolveFile_textual`: the spliced token list is accepted with the resolved tree.
-/

namespace KconfigLang

open KconfigLang.Derivation

/-! ## Token lists without inclusions -/

/-- The inclusion that two tokens write. -/
def inclusion? (t u : Lexed) : Option Source :=
  match t.token, u.token with
  | .keyword .source, .string value raw => some ⟨.plain, ⟨value, raw, u.span⟩, t.span⟩
  | .keyword .rsource, .string value raw => some ⟨.relative, ⟨value, raw, u.span⟩, t.span⟩
  | .keyword .osource, .string value raw => some ⟨.optional, ⟨value, raw, u.span⟩, t.span⟩
  | .keyword .orsource, .string value raw => some ⟨.optionalRelative, ⟨value, raw, u.span⟩, t.span⟩
  | _, _ => none

theorem inclusion?_sourceLine (d : SourceLine) :
    inclusion? ⟨.keyword (sourceKeyword d.kind), d.pos⟩ (stringToken d.path) =
      some ⟨d.kind, d.path, d.pos⟩ := by
  obtain ⟨kind, pos, path⟩ := d
  cases kind <;> rfl

theorem startsSource_of_inclusion? {t u : Lexed} {source : Source} (h : inclusion? t u = some source) :
    startsSource t.token = true := by
  unfold inclusion? at h
  split at h <;> simp_all [startsSource]

/-- The tokens of an included file that count: a title at the start does not. -/
def withoutTitle : List Lexed → List Lexed
  | ⟨.keyword .mainmenu, _⟩ :: ⟨.string _ _, _⟩ :: rest => rest
  | ts => ts

/-- The tokens of a file become a list in which each inclusion is replaced by what the tokens of its file
become; an optional one without a file is left out. -/
inductive Spliced (r : Resolver) : Path → List Lexed → List Lexed → Prop
  | nil {file : Path} : Spliced r file [] []
  | token {file : Path} {t : Lexed} {rest out : List Lexed} (ht : startsSource t.token = false)
    (hrest : Spliced r file rest out) : Spliced r file (t :: rest) (t :: out)
  | included {file path : Path} {t u : Lexed} {source : Source} {text : String}
    {ts inner rest out : List Lexed} (hsource : inclusion? t u = some source)
    (hpath : r.loader.canonicalize (r.target [file] source) = .ok path)
    (htext : r.loader.read path = .ok text)
    (hts : tokenize (Locator.ofChars .root text.toList) text.toList = .ok ts)
    (hinner : Spliced r path (withoutTitle ts) inner) (hrest : Spliced r file rest out) :
    Spliced r file (t :: u :: rest) (inner ++ out)
  | skipped {file : Path} {t u : Lexed} {source : Source} {e : IoError} {rest out : List Lexed}
    (hsource : inclusion? t u = some source) (hoptional : source.kind.isOptional = true)
    (he : r.loader.canonicalize (r.target [file] source) = .error e) (hkind : e.kind = .notFound)
    (hrest : Spliced r file rest out) : Spliced r file (t :: u :: rest) out

section Splicing

variable {r : Resolver} {file : Path}

/-- There is only one such list. -/
theorem Spliced.unique {ts out out' : List Lexed} (h : Spliced r file ts out)
    (h' : Spliced r file ts out') : out' = out := by
  induction h generalizing out' with
  | nil =>
    cases h'
    rfl
  | token ht hrest ih =>
    cases h' with
    | token _ hrest' => rw [ih hrest']
    | included hsource => simp [startsSource_of_inclusion? hsource] at ht
    | skipped hsource => simp [startsSource_of_inclusion? hsource] at ht
  | included hsource hpath htext hts hinner hrest ihinner ih =>
    cases h' with
    | token ht => simp [startsSource_of_inclusion? hsource] at ht
    | included hsource' hpath' htext' hts' hinner' hrest' =>
      obtain rfl := Option.some.inj (hsource.symm.trans hsource')
      obtain rfl := Except.ok.inj (hpath.symm.trans hpath')
      obtain rfl := Except.ok.inj (htext.symm.trans htext')
      obtain rfl := Except.ok.inj (hts.symm.trans hts')
      rw [ihinner hinner', ih hrest']
    | skipped hsource' _ he' =>
      obtain rfl := Option.some.inj (hsource.symm.trans hsource')
      exact nomatch hpath.symm.trans he'
  | skipped hsource _ he _ hrest ih =>
    cases h' with
    | token ht => simp [startsSource_of_inclusion? hsource] at ht
    | included hsource' hpath' =>
      obtain rfl := Option.some.inj (hsource.symm.trans hsource')
      exact nomatch hpath'.symm.trans he
    | skipped _ _ _ _ hrest' => exact ih hrest'

/-- In front of any tokens, `ts` becomes `out`. -/
def Splits (r : Resolver) (file : Path) (ts out : List Lexed) : Prop :=
  ∀ rest more, Spliced r file rest more → Spliced r file (ts ++ rest) (out ++ more)

theorem Splits.spliced {ts out : List Lexed} (h : Splits r file ts out) : Spliced r file ts out := by
  simpa using h [] [] .nil

theorem Splits.append {ts us out more : List Lexed} (h : Splits r file ts out)
    (h' : Splits r file us more) : Splits r file (ts ++ us) (out ++ more) := by
  intro rest last hrest
  rw [List.append_assoc, List.append_assoc]
  exact h _ _ (h' rest last hrest)

end Splicing

/-! ## Tokens that stay -/

/-- No token of a list starts an inclusion. -/
def Inert (ts : List Lexed) : Prop :=
  ∀ t ∈ ts, startsSource t.token = false

@[simp] theorem inert_nil : Inert [] :=
  List.forall_mem_nil _

@[simp] theorem inert_cons {t : Lexed} {ts : List Lexed} :
    Inert (t :: ts) ↔ startsSource t.token = false ∧ Inert ts :=
  List.forall_mem_cons

@[simp] theorem inert_append {ts us : List Lexed} : Inert (ts ++ us) ↔ Inert ts ∧ Inert us :=
  List.forall_mem_append

theorem Inert.splits {ts : List Lexed} (h : Inert ts) (r : Resolver) (file : Path) :
    Splits r file ts ts := by
  intro rest more hrest
  induction ts with
  | nil => exact hrest
  | cons t ts ih =>
    obtain ⟨ht, hts⟩ := inert_cons.mp h
    exact .token ht (ih hts)

namespace Derivation

theorem inert_list {D α : Type} {P : Phrase D α} (h : ∀ d, Inert (P.tokens d)) (ds : List D) :
    Inert (P.list.tokens ds) := by
  intro t ht
  obtain ⟨d, -, ht⟩ := List.mem_flatMap.mp ht
  exact h d t ht

theorem inert_of_allPlain {ts : List Lexed} (h : AllPlain ts) : Inert ts :=
  fun t ht => startsSource_of_isPlain (h t ht)

theorem inert_of_isTyped {ts : List Lexed} {start : Nat} (h : IsTyped ts start) : Inert ts := by
  obtain ⟨t, rest, rfl, htype, -, hrest⟩ := h
  exact inert_cons.mpr ⟨startsSource_of_startsType htype, inert_of_allPlain hrest.plain⟩

theorem EntryLine.inert_tokens (d : EntryLine) : Inert (EntryLine.phrase.tokens d) := by
  rcases d.tokens_cases with ⟨-, hinner⟩ | ⟨decl, -, htyped⟩
  · exact inert_of_allPlain hinner.plain
  · exact inert_of_isTyped htyped

theorem ChoiceLine.inert_tokens (d : ChoiceLine) : Inert (ChoiceLine.phrase.tokens d) := by
  rcases d.tokens_cases with hinner | ⟨start, htyped⟩
  · exact inert_of_allPlain hinner.plain
  · exact inert_of_isTyped htyped

theorem inert_entry {word : Keyword} (h : startsSource (.keyword word) = false) (d : Entry) :
    Inert ((entryPhrase word).tokens d) :=
  inert_cons.mpr ⟨h, inert_cons.mpr ⟨rfl, inert_list EntryLine.inert_tokens d.lines⟩⟩

theorem inert_choice (d : ChoiceBlock) : Inert (choicePhrase.tokens d) := by
  have hmembers : Inert ((entryPhrase .config).list.tokens (d.first :: d.more)) :=
    inert_list (inert_entry rfl) _
  exact inert_cons.mpr ⟨rfl, inert_append.mpr ⟨inert_list ChoiceLine.inert_tokens d.lines,
    inert_append.mpr ⟨hmembers, inert_cons.mpr ⟨rfl, inert_nil⟩⟩⟩⟩

end Derivation

/-! ## Blocks -/

/-- Some tokens of a file become the tokens of statements that say the same as a block. -/
def Inlines (r : Resolver) (file : Path) (ts : List Lexed) (block : List Stmt) : Prop :=
  ∃ ds, Splits r file ts (Statement.tokensAll ds) ∧
    Stmt.eraseAll (Statement.treeAll ds) = Stmt.eraseAll block ∧ Statement.conflictsAll ds = []

/-- Wherever an inclusion of a file is written, its tokens become those of a block. -/
def InlinesSource (r : Resolver) (file : Path) (source : Source) (block : List Stmt) : Prop :=
  ∀ d : SourceLine, (sourcePhrase.tree d).erase = source.erase →
    Inlines r file (sourcePhrase.tokens d) block

section Blocks

variable {r : Resolver} {file : Path}

theorem Inlines.append {ts us : List Lexed} {block more : List Stmt} (h : Inlines r file ts block)
    (h' : Inlines r file us more) : Inlines r file (ts ++ us) (block ++ more) := by
  obtain ⟨ds, hsplits, htree, hconflicts⟩ := h
  obtain ⟨es, hsplits', htree', hconflicts'⟩ := h'
  refine ⟨ds ++ es, ?_, ?_, ?_⟩
  · rw [Statement.tokensAll_append]
    exact hsplits.append hsplits'
  · rw [Statement.treeAll_append, Stmt.eraseAll_append, Stmt.eraseAll_append, htree, htree']
  · rw [Statement.conflictsAll_append, hconflicts, hconflicts', List.append_nil]

theorem inlines_of_splits {d e : Statement} {s : Stmt} (h : Splits r file d.tokens e.tokens)
    (htree : e.tree.erase = s.erase) (hconflicts : e.conflicts = []) :
    Inlines r file d.tokens [s] := by
  refine ⟨[e], ?_, ?_, ?_⟩
  · simpa [Statement.tokensAll] using h
  · simp [Statement.treeAll, Stmt.eraseAll, htree]
  · simp [Statement.conflictsAll, hconflicts]

/-- A statement without inclusions inlines to itself. -/
theorem inlines_of_inert {d : Statement} {s : Stmt} (h : Inert d.tokens)
    (hconflicts : d.conflicts = []) (htree : d.tree.erase = s.erase) :
    Inlines r file d.tokens [s] :=
  inlines_of_splits (h.splits r file) htree hconflicts

mutual

/-- The tokens of a statement become those of what replaces it. -/
theorem inlines_statement : ∀ (d : Statement) (s : Stmt) (block : List Stmt), d.conflicts = [] →
    d.tree.erase = s.erase → Stmt.Replaces (InlinesSource r file) s block →
    Inlines r file d.tokens block
  | .config d, .config c, _, hconflicts, htree, rfl =>
    inlines_of_inert (d := .config d) (inert_entry rfl d) hconflicts htree
  | .menuconfig d, .menuconfig c, _, hconflicts, htree, rfl =>
    inlines_of_inert (d := .menuconfig d) (inert_entry rfl d) hconflicts htree
  | .choice d, .choice c, _, hconflicts, htree, rfl =>
    inlines_of_inert (d := .choice d) (inert_choice d) hconflicts htree
  | .comment d, .comment c, _, hconflicts, htree, rfl =>
    inlines_of_inert (d := .comment d) (inert_of_allPlain (plain_comment d)) hconflicts htree
  | .source d, .source source, _, _, htree, h => h d (Stmt.source.inj htree)
  | .menu pos title lines body stop, .menu head inner, _, hconflicts, htree, ⟨out, hout, rfl⟩ => by
    obtain ⟨hhead, hinner⟩ := Stmt.menu.inj htree
    obtain ⟨ds, hsplits, hds, hnone⟩ := inlines_block body inner out hconflicts hinner hout
    have hlines :
        Inert (⟨.keyword .menu, pos⟩ :: stringToken title :: MenuLine.phrase.list.tokens lines) :=
      inert_of_allPlain (((allTokens_list MenuLine.inner lines).plain.cons rfl).cons rfl)
    have hstop : Inert [⟨.keyword .endmenu, stop⟩] := inert_cons.mpr ⟨rfl, inert_nil⟩
    -- The first tokens and the last one stay; between them stand the tokens of the new body.
    have hmenu := (hlines.splits r file).append (hsplits.append (hstop.splits r file))
    refine inlines_of_splits (e := .menu pos title lines ds stop) hmenu ?_ hnone
    show Stmt.menu _ (Stmt.eraseAll (Statement.treeAll ds)) = .menu head.erase (Stmt.eraseAll out)
    rw [hds, ← hhead]
    rfl
  | .ifBlock pos cond body stop, .ifBlock condition inner span, _, hconflicts, htree,
      ⟨out, hout, rfl⟩ => by
    obtain ⟨hcond, hinner, -⟩ := Stmt.ifBlock.inj htree
    obtain ⟨ds, hsplits, hds, hnone⟩ := inlines_block body inner out hconflicts hinner hout
    have hhead : Inert (⟨.keyword .ifBlock, pos⟩ :: cond.tokens) :=
      inert_of_allPlain (cond.inner.plain.cons rfl)
    have hstop : Inert [⟨.keyword .endif, stop⟩] := inert_cons.mpr ⟨rfl, inert_nil⟩
    have hif := (hhead.splits r file).append (hsplits.append (hstop.splits r file))
    refine inlines_of_splits (e := .ifBlock pos cond ds stop) hif ?_ hnone
    show Stmt.ifBlock cond.tree.erase (Stmt.eraseAll (Statement.treeAll ds)) _ =
      .ifBlock condition.erase (Stmt.eraseAll out) _
    rw [hds, hcond]

/-- The tokens of a block become those of what replaces it. -/
theorem inlines_block : ∀ (ds : List Statement) (ss block : List Stmt),
    Statement.conflictsAll ds = [] → Stmt.eraseAll (Statement.treeAll ds) = Stmt.eraseAll ss →
    Stmt.ReplacesAll (InlinesSource r file) ss block → Inlines r file (Statement.tokensAll ds) block
  | [], [], _, _, _, rfl => ⟨[], fun _ _ h => h, rfl, rfl⟩
  | d :: ds, s :: ss, _, hconflicts, htree, ⟨first, more, hfirst, hmore, rfl⟩ => by
    obtain ⟨hd, hds⟩ := List.append_eq_nil_iff.mp hconflicts
    obtain ⟨hs, hss⟩ := List.cons.inj htree
    exact (inlines_statement d s first hd hs hfirst).append (inlines_block ds ss more hds hss hmore)

end

/-! ## Files -/

theorem withoutTitle_file (d : File) :
    withoutTitle ((File.phrase .root).tokens d) = Statement.tokensAll d.statements := by
  obtain ⟨_ | title, statements⟩ := d
  · show withoutTitle (Statement.phrase.list.tokens statements) = _
    rw [Statement.tokensAll_eq]
    cases statements with
    | nil => rfl
    | cons d ds =>
      obtain ⟨t, ts, hts, hstart⟩ := begins_statement.append d (Statement.phrase.list.tokens ds)
      have hts' : Statement.phrase.list.tokens (d :: ds) = t :: ts := by simpa using hts
      rw [hts']
      unfold withoutTitle
      split
      · rename_i heq
        obtain ⟨rfl, -⟩ := List.cons.inj heq
        exact absurd (show startsStatement (.keyword .mainmenu) = true from hstart) (by decide)
      · rfl
  · rw [Statement.tokensAll_eq]
    rfl

/-- The tokens of a file are those of a derivation, and those of its statements become the tokens of what
replaces the statements of its tree. -/
theorem inlines_of_loaded {root : Root} {block : List Stmt} (h : r.Loaded file root)
    (hblock : Stmt.ReplacesAll (InlinesSource r file) root.statements block) :
    ∃ text d, r.loader.read file = .ok text ∧
      tokenize (Locator.ofChars .root text.toList) text.toList = .ok ((File.phrase .root).tokens d) ∧
      (titlePhrase.option.tree d.title).map MainMenu.erase = root.mainMenu.map MainMenu.erase ∧
      Inlines r file (Statement.tokensAll d.statements) block := by
  obtain ⟨text, id, tree, htext, htree, rfl⟩ := h
  -- The session read the file under a number of its own; the tokens are those of the same text.
  obtain ⟨root', hroot', hmatch⟩ := parse_matching htree .root
  obtain ⟨d, htokens, rfl, hconflicts⟩ := (parse_eq_ok_iff .root text root').mp hroot'
  obtain ⟨-, -, htitle, hstatements⟩ := Root.mk.inj hmatch
  refine ⟨text, d, htext, htokens, htitle.symm, inlines_block d.statements tree.statements block ?_ ?_
    hblock⟩
  · rw [Statement.conflictsAll_eq]
    exact hconflicts
  · rw [Statement.treeAll_eq]
    exact hstatements.symm

/-- An inclusion that leads to a file inlines to what replaces the statements of the file. -/
theorem inlinesSource_of_loaded {path : Path} {source : Source} {root : Root} {block : List Stmt}
    (hpath : r.loader.canonicalize (r.target [file] source) = .ok path) (h : r.Loaded path root)
    (hblock : Stmt.ReplacesAll (InlinesSource r path) root.statements block) :
    InlinesSource r file source block := by
  intro d hd
  obtain ⟨text, inner, htext, htokens, -, ds, hsplits, htree, hconflicts⟩ := inlines_of_loaded h hblock
  refine ⟨ds, fun rest more hrest => ?_, htree, hconflicts⟩
  have hinner : Spliced r path (withoutTitle ((File.phrase .root).tokens inner))
      (Statement.tokensAll ds) := by
    rw [withoutTitle_file]
    exact hsplits.spliced
  have htarget : r.target [file] ⟨d.kind, d.path, d.pos⟩ = r.target [file] source :=
    Resolver.target_congr [file] hd
  refine .included (inclusion?_sourceLine d) ?_ htext htokens hinner hrest
  rw [htarget, hpath]

/-- An optional inclusion without a file inlines to nothing. -/
theorem inlinesSource_nil {source : Source} {e : IoError} (hoptional : source.kind.isOptional = true)
    (he : r.loader.canonicalize (r.target [file] source) = .error e) (hkind : e.kind = .notFound) :
    InlinesSource r file source [] := by
  intro d hd
  have htarget : r.target [file] ⟨d.kind, d.path, d.pos⟩ = r.target [file] source :=
    Resolver.target_congr [file] hd
  have hsame : d.kind = source.kind := (Source.mk.inj hd).1
  refine ⟨[], fun rest more hrest => .skipped (inclusion?_sourceLine d) ?_ ?_ hkind hrest, rfl, rfl⟩
  · rw [hsame, hoptional]
  · rw [htarget, he]

end Blocks

/-! ## Sessions -/

namespace Resolver

/-- What a session puts in place of an inclusion is what the tokens of the inclusion become. -/
theorem yields_includeSource (r : Resolver) (label : Path) (room : Nat) (file : Path)
    (stack : List Path) (source : Source) :
    Yields r.Remembers (r.includeSource label room (file :: stack) source)
      (InlinesSource r file source) fun _ => True := by
  have hlocate : ∀ file stack source, Yields r.Remembers (r.locate label (file :: stack) source)
      (r.Locates (file :: stack) source) fun _ => True := fun file stack source =>
    yields_locate (fun _ _ => trivial) (fun _ _ => trivial) (fun _ _ _ => trivial) fun _ _ _ => trivial
  have hnone : ∀ file stack source, r.Locates (file :: stack) source none →
      InlinesSource r file source [] := by
    rintro file stack source ⟨hoptional, e, he, hkind⟩
    exact inlinesSource_nil hoptional he hkind
  induction room generalizing file stack source with
  | zero =>
    exact yields_includeSource_zero (hlocate file stack source) (hnone file stack source)
      fun _ _ => trivial
  | succ room ih =>
    refine yields_includeSource_succ (R := InlinesSource r) (hlocate file stack source)
      (hnone file stack source) (fun path _ => ?_) (fun path root _ _ s _ => ?_)
      fun path root block hpath hroot hblock => ?_
    · exact yields_load (fun _ _ => trivial) fun _ _ _ _ _ => trivial
    · exact ih path (file :: stack) s
    · exact inlinesSource_of_loaded hpath.1 hroot hblock

/-- **Textual inclusion**: the tokens of the root file, with each inclusion replaced by the tokens of its
file, are accepted, and their tree says the same as the resolved configuration. -/
theorem resolveFile_textual (r : Resolver) (path : Path) (resolved : ResolvedTree)
    (h : r.resolveFile path = .ok resolved) :
    ∃ file text ts out, r.loader.canonicalize path = .ok file ∧ r.loader.read file = .ok text ∧
      tokenize (Locator.ofChars .root text.toList) text.toList = .ok ts ∧
      Spliced r file ts out ∧ (∀ out', Spliced r file ts out' → out' = out) ∧
      ∀ loc, ∃ tree, (Grammar.file .root).parse loc out = .ok tree ∧
        Matching Root.erase resolved.toRoot tree := by
  cases hfile : r.loader.canonicalize path with
  | error e =>
    have herror : r.resolveFile path = .error (.load (.io path e)) := by
      unfold resolveFile fileSession
      rw [hfile]
      rfl
    exact nomatch h.symm.trans herror
  | ok file =>
    have houtcome := resolveFile_outcome (E := fun _ => True)
      (Q := fun root => Stmt.ReplacesAll (InlinesSource r file) root.statements) hfile
      (yields_load (fun _ _ => trivial) fun _ _ _ _ _ => trivial) fun root hroot =>
        hroot.yields_spliceAll fun s _ => yields_includeSource r path _ file [] s
    rw [h] at houtcome
    obtain ⟨root, hroot, htitle, hblock⟩ := houtcome
    obtain ⟨text, d, htext, htokens, hd, ds, hsplits, htree, hconflicts⟩ :=
      inlines_of_loaded hroot hblock
    have hspliced : Spliced r file ((File.phrase .root).tokens d)
        ((File.phrase .root).tokens ⟨d.title, ds⟩) := by
      simp only [File.phrase_tokens, ← Statement.tokensAll_eq]
      have htitle : Inert (titlePhrase.option.tokens d.title) := inert_of_allPlain (plain_title d.title)
      exact ((htitle.splits r file).append hsplits).spliced
    refine ⟨file, text, _, _, rfl, htext, htokens, hspliced, fun _ h' => hspliced.unique h', ?_⟩
    intro loc
    refine ⟨(File.phrase .root).tree ⟨d.title, ds⟩, ?_, ?_⟩
    · refine (Reads.parse_eq_ok_iff (fun _ => reads_file .root) loc _ _).mpr ⟨_, rfl, rfl, ?_⟩
      rw [File.phrase_conflicts, ← Statement.conflictsAll_eq, hconflicts]
    · show Root.mk .root none (resolved.mainMenu.map MainMenu.erase) (Stmt.eraseAll resolved.statements) =
        .mk .root none ((titlePhrase.option.tree d.title).map MainMenu.erase)
          (Stmt.eraseAll (Statement.phrase.list.tree ds))
      rw [htitle, hd, ← Statement.treeAll_eq, htree]

/-- A session over a menu that holds a file with a title, which goes on without a missing file. -/
def titled : Resolver where
  loader := MemoryTree.loader
    ⟨[(⟨"/Kconfig"⟩, "mainmenu \"All\"\nmenu \"Part\"\nsource \"part/Kconfig\"\nendmenu\n"),
      (⟨"/part/Kconfig"⟩, "mainmenu \"Part\"\nconfig A\n\tbool\norsource \"none\"\nconfig B\n")]⟩
  expandPath := id
  base := ⟨"/"⟩

theorem titled_textual : ∃ resolved, titled.resolveFile ⟨"Kconfig"⟩ = .ok resolved ∧
    ∃ file text ts out, titled.loader.canonicalize ⟨"Kconfig"⟩ = .ok file ∧
      titled.loader.read file = .ok text ∧
      tokenize (Locator.ofChars .root text.toList) text.toList = .ok ts ∧
      Spliced titled file ts out ∧ (∀ out', Spliced titled file ts out' → out' = out) ∧
      ∀ loc, ∃ tree, (Grammar.file .root).parse loc out = .ok tree ∧
        Matching Root.erase resolved.toRoot tree := by
  obtain ⟨resolved, h⟩ := exists_ok_of_isOk (x := titled.resolveFile ⟨"Kconfig"⟩) (by decide +kernel)
  exact ⟨resolved, h, resolveFile_textual titled ⟨"Kconfig"⟩ resolved h⟩

end Resolver

end KconfigLang
