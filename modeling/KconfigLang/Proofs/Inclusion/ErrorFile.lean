import KconfigLang.Proofs.Files.MemoryTree
import KconfigLang.Proofs.Grammar.ErrorSpan
import KconfigLang.Proofs.Grammar.Inclusions
import KconfigLang.Proofs.Inclusion.Depth
import KconfigLang.Proofs.Inclusion.Failure

/-!
# The files that errors point into

An error takes its file from the stack and its span from a statement in a tree that may have been read long before.
The two belong together, because the statements that are left in a session always stand in the innermost file of the
stack (`InFile`).

- `Resolver.Blames`: what an error says of the inclusion at which it occurs is so.
- `Resolver.ErrorPlace`: an error points into a file of a tree, and what it says is so there.
- `Reaches.exists_text`: an inclusion that a session comes to is one of its file.
- `errorPlace_of_fails`: every error points into its file, also where paths are expanded differently at every step.
- `Resolver.resolveFile_errorPlace`: what an error says of its place.
-/

namespace KconfigLang

namespace Resolver

/-- What an error says of an inclusion in a file: the path that the inclusion asks for leads nowhere, to a file that is
too deep, or to the file that is repeated. -/
def Blames (r : Resolver) (file : Path) (source : Source) : ResolveError → Prop
  | .noTarget target _ _ cause => r.target [file] source = target ∧ r.loader.canonicalize target = .error cause
  | .tooDeep limit target _ _ =>
    r.loader.canonicalize (r.target [file] source) = .ok target ∧ limit = r.limits.maxDepth
  | .cycle files _ _ =>
    ∃ last, files.getLast? = some last ∧ r.loader.canonicalize (r.target [file] source) = .ok last
  | _ => False

/-- What an error says of a text is so: the text is wrong there, or an inclusion in it is. -/
def Explains (r : Resolver) (file : Path) (text : String) (span : Span) : ResolveError → Prop
  | .load cause => ∃ e, cause = .text file e ∧ parse span.file text = .error e ∧
    parse .root text = .error (e.mapSpan (Span.inFile .root))
  | e => ∃ source, span.CoversInclusion text source ∧ r.Blames file source e

/-- The canonical path of a file of a tree, and the text that is read there. -/
structure HasText (r : Resolver) (tree : MemoryTree) (file : Path) (text : String) : Prop where
  canonical : r.loader.canonicalize file = .ok file
  held : (file, text) ∈ tree.files
  readable : r.loader.read file = .ok text

/-- An error points into a file of a tree, and what it says is so there. -/
structure ErrorPlace (r : Resolver) (tree : MemoryTree) (e : ResolveError) (span : Span) (file : Path)
    (text : String) : Prop where
  named : e.file? = some file
  hasText : r.HasText tree file text
  lies : span.LiesIn text.toList
  explained : r.Explains file text span e

variable {r : Resolver} {tree : MemoryTree} {path file : Path} {span : Span} {e : ResolveError}

/-- What an inclusion asks for depends on the innermost file alone. -/
theorem target_of_head? {stack : List Path} (h : stack.head? = some file) (source : Source) :
    r.target stack source = r.target [file] source := by
  simp [target, h]

theorem hasText_of_canonicalize {asked : Path} {text : String} (hloader : r.loader = tree.loader)
    (hpath : tree.loader.canonicalize asked = .ok file) (htext : tree.loader.read file = .ok text) :
    r.HasText tree file text := by
  obtain ⟨text', htext', hheld⟩ := MemoryTree.read_of_canonicalize hpath
  obtain rfl : text' = text := Except.ok.inj (htext'.symm.trans htext)
  constructor
  · rw [hloader]
    exact MemoryTree.canonicalize_canonicalize hpath
  · exact hheld
  · rw [hloader]
    exact htext

/-- A file that is found and gives no tree has a wrong text, if the error has a span. -/
theorem errorPlace_of_load {s : Session} {asked : Path} (hloader : r.loader = tree.loader)
    (hpath : r.loader.canonicalize asked = .ok file) (hload : ((r.load file).run.run s).1 = .error e)
    (hspan : e.span? = some span) : ∃ text, r.ErrorPlace tree e span file text := by
  obtain ⟨-, ⟨cause, -, rfl⟩ | ⟨text, cause, htext, hcause, rfl⟩⟩ := run_load_eq_error_iff.mp hload
  · cases hspan
  · obtain rfl : cause.span = span := Option.some.inj hspan
    have hown : parse cause.span.file text = .error cause := by
      rw [file_of_parse_error hcause]
      exact hcause
    have hexplained : r.Explains file text cause.span (.load (.text file cause)) :=
      ⟨cause, rfl, hown, parse_error_inFile hcause .root⟩
    rw [hloader] at hpath htext
    exact ⟨text, rfl, hasText_of_canonicalize hloader hpath htext, liesIn_of_parse_error hcause, hexplained⟩

end Resolver

open Resolver

section Sessions

variable {rs : Resolver → Prop} {tree : MemoryTree} {r : Resolver} {s : Session} {stack : List Path}
  {source : Source} {given : Path} {e : ResolveError} {span : Span}

/-- An inclusion that a session comes to is one of the innermost file, and its span covers it there. -/
theorem Reaches.exists_text (hloader : ∀ r, rs r → r.loader = tree.loader)
    (h : Reaches rs (.file given) r s stack source) : ∃ file text, stack.head? = some file ∧
      r.HasText tree file text ∧ source.span.CoversInclusion text source := by
  rcases h.inFile with ⟨file, root, hhead, ⟨hfound, hopened⟩, hst⟩ | ⟨_, _, _, hentry, _⟩
  · obtain ⟨r', asked, hr', hpath⟩ := hfound
    obtain ⟨r'', hr'', text, id, root', htext, hparse, rfl⟩ := hopened
    rw [hloader r' hr'] at hpath
    rw [hloader r'' hr''] at htext
    exact ⟨file, text, hhead, hasText_of_canonicalize (hloader r h.admitted) hpath htext,
      (coversInclusion_of_mem hparse (mem_inclusions.mpr hst)).2⟩
  · cases hentry

/-- An error at an inclusion points into its file if it says of it what is so. -/
theorem Reaches.errorPlace (hloader : ∀ r, rs r → r.loader = tree.loader)
    (h : Reaches rs (.file given) r s stack source) (hspan : source.span = span)
    (hnamed : e.file? = some (referrer given stack)) (hload : ∀ cause, e ≠ .load cause)
    (hblames : ∀ file, stack.head? = some file → r.Blames file source e) :
    ∃ file text, r.ErrorPlace tree e span file text := by
  obtain ⟨file, text, hhead, htext, hcovers⟩ := h.exists_text hloader
  subst hspan
  have hfile : e.file? = some file := by
    rw [hnamed, referrer, hhead]
    rfl
  have hexplained : r.Explains file text source.span e := by
    have hsays := hblames file hhead
    cases e with
    | load cause => exact absurd rfl (hload cause)
    | _ => exact ⟨source, hcovers, hsays⟩
  exact ⟨file, text, hfile, htext, hcovers.holds.liesIn, hexplained⟩

/-- Every error of a session points into its file, also where paths are expanded differently at every step. -/
theorem errorPlace_of_fails (hloader : ∀ r, rs r → r.loader = tree.loader) (h : Fails rs (.file given) e)
    (hspan : e.span? = some span) : ∃ r, rs r ∧ ∃ file text, r.ErrorPlace tree e span file text := by
  cases failsAt_of_fails h with
  | lost => cases hspan
  | root hr hentry hpath hload =>
    exact ⟨_, hr, _, errorPlace_of_load (hloader _ hr) hpath hload hspan⟩
  | stopped _ hstop =>
    obtain ⟨-, rfl⟩ | ⟨limit, -, rfl⟩ := Resolver.cases_of_stop? hstop <;> cases hspan
  | @missing r s stack source cause hreaches htarget hneeded =>
    refine ⟨r, hreaches.admitted, hreaches.errorPlace hloader (Option.some.inj hspan) rfl (fun _ => nofun) ?_⟩
    intro file hhead
    exact ⟨(target_of_head? hhead source).symm, htarget⟩
  | @cycle r s stack source path hreaches htarget hmem =>
    refine ⟨r, hreaches.admitted, hreaches.errorPlace hloader (Option.some.inj hspan) rfl (fun _ => nofun) ?_⟩
    intro file hhead
    rw [target_of_head? hhead] at htarget
    exact ⟨path, by simp, htarget⟩
  | @tooDeep r s stack source path hreaches htarget hmem hfull =>
    refine ⟨r, hreaches.admitted, hreaches.errorPlace hloader (Option.some.inj hspan) rfl (fun _ => nofun) ?_⟩
    intro file hhead
    rw [target_of_head? hhead] at htarget
    exact ⟨htarget, rfl⟩
  | target hreaches htarget hmem hroom hload =>
    exact ⟨_, hreaches.admitted, _, errorPlace_of_load (hloader _ hreaches.admitted) htarget hload hspan⟩
  | emptyChoice hfile hempty =>
    rcases hfile with ⟨file, root, -, ⟨-, r, -, text, id, tree, -, hparse, rfl⟩, hst⟩ | ⟨_, _, _, hentry, _⟩
    · exact absurd hempty (members_ne_nil_of_parse hparse _ hst)
    · cases hentry

end Sessions

namespace Resolver

/-- **The places of errors**: an error with a span names the canonical path of a file of the tree, and the span lies in
the text of that file. At an inclusion it covers that inclusion of the file and nothing of another one, and the path
that the inclusion asks for is the one reported, or leads to the one reported where that is the canonical path of a
file. If a text is wrong, the error is the one that this text has on its own. -/
theorem resolveFile_errorPlace {r : Resolver} {tree : MemoryTree} {path : Path} {e : ResolveError} {span : Span}
    (hloader : r.loader = tree.loader) (h : r.resolveFile path = .error e) (hspan : e.span? = some span) :
    ∃ file text, r.ErrorPlace tree e span file text := by
  have hfails : Fails (· = r) (.file path) e := fails_iff.mpr h
  obtain ⟨_, rfl, hplace⟩ := errorPlace_of_fails (fun _ hr => hr ▸ hloader) hfails hspan
  exact hplace

/-- A file in a menu that is included by another path than its canonical one, and whose text lacks its end. -/
def aroundTree : MemoryTree :=
  ⟨[(⟨"/Kconfig"⟩, "menu \"M\"\nsource \"sub/../end\"\nendmenu\n"), (⟨"/end"⟩, "menu \"E\"\n\n")]⟩

/-- A session over the files of `aroundTree`. -/
def around : Resolver :=
  { loader := aroundTree.loader, expandPath := id, base := ⟨"/"⟩ }

theorem around_errorPlace : (around.withDepth 1).loader = aroundTree.loader ∧
    (around.withDepth 1).resolveFile ⟨"Kconfig"⟩ =
      .error (.tooDeep 1 ⟨"/end"⟩ ⟨"/Kconfig"⟩ ⟨.root, 9, 28, 2, 1⟩) ∧
    ∃ file text, (around.withDepth 1).ErrorPlace aroundTree
      (.tooDeep 1 ⟨"/end"⟩ ⟨"/Kconfig"⟩ ⟨.root, 9, 28, 2, 1⟩) ⟨.root, 9, 28, 2, 1⟩ file text := by
  have hfails : (around.withDepth 1).resolveFile ⟨"Kconfig"⟩ =
      .error (.tooDeep 1 ⟨"/end"⟩ ⟨"/Kconfig"⟩ ⟨.root, 9, 28, 2, 1⟩) := eq_error_of_failure? (by decide +kernel)
  exact ⟨rfl, hfails, resolveFile_errorPlace rfl hfails rfl⟩

/-- The path that is reported as too deep is canonical, so it need not be the one that the inclusion asks for. And an
error at the end of the input may end before it starts. -/
theorem around_asks_elsewhere :
    (around.withDepth 1).resolveFile ⟨"Kconfig"⟩ =
      .error (.tooDeep 1 ⟨"/end"⟩ ⟨"/Kconfig"⟩ ⟨.root, 9, 28, 2, 1⟩) ∧
    (∀ source, (around.withDepth 1).Contains ⟨"/Kconfig"⟩ source →
      (around.withDepth 1).target [⟨"/Kconfig"⟩] source = ⟨"/sub/../end"⟩) ∧
    ∃ e, (around.withDepth 2).resolveFile ⟨"Kconfig"⟩ = .error e ∧ e.file? = some ⟨"/end"⟩ ∧
      e.span? = some ⟨⟨1⟩, 10, 8, 3, 1⟩ := by
  refine ⟨eq_error_of_failure? (by decide +kernel), fun source hsource => ?_, ?_⟩
  · have htext : (around.withDepth 1).loader.read ⟨"/Kconfig"⟩ =
        .ok "menu \"M\"\nsource \"sub/../end\"\nendmenu\n" := by decide +kernel
    have hasks : (parse .root "menu \"M\"\nsource \"sub/../end\"\nendmenu\n").toOption.map
        (fun root => (inclusions root.statements).map ((around.withDepth 1).target [⟨"/Kconfig"⟩])) =
          some [⟨"/sub/../end"⟩] := by decide +kernel
    obtain ⟨root, hparse⟩ := exists_ok_of_isOk
      (x := parse .root "menu \"M\"\nsource \"sub/../end\"\nendmenu\n") (by decide +kernel)
    rw [hparse] at hasks
    have hloaded : (around.withDepth 1).Loaded ⟨"/Kconfig"⟩ { root with path := some ⟨"/Kconfig"⟩ } :=
      ⟨_, .root, root, htext, hparse, rfl⟩
    obtain ⟨s, hs, herase⟩ := hloaded.exists_source hsource
    rw [← target_congr _ herase]
    exact List.mem_singleton.mp (Option.some.inj hasks ▸ List.mem_map_of_mem (mem_inclusions.mpr hs))
  · have hfails : (failure? ((around.withDepth 2).resolveFile ⟨"Kconfig"⟩)).map (fun e => (e.file?, e.span?)) =
        some (some ⟨"/end"⟩, some ⟨⟨1⟩, 10, 8, 3, 1⟩) := by decide +kernel
    obtain ⟨e, he, hplace⟩ := Option.map_eq_some_iff.mp hfails
    obtain ⟨hfile, hspan⟩ := Prod.mk.inj hplace
    exact ⟨e, eq_error_of_failure? he, hfile, hspan⟩

end Resolver

end KconfigLang
