import KconfigLang.Proofs.Grammar.Acceptance
import KconfigLang.Proofs.Grammar.PlainTokens
import Mathlib.Data.List.Forall2

/-!
# The entries of a text

The entries of a file, at any nesting and in choices too, are those that its tokens declare, in order: no other line
holds a `config` or a `menuconfig`, and every entry begins with one.

- `declarations`: the tokens that declare entries, each with the token behind it.
- `Config.DeclaredBy`: an entry is the one that a token declares.
- `WritesEntries`: some tokens declare some entries, whatever stands behind them.
- `Statement.writesEntries`: so do the tokens of a derivation and the entries of its tree.
- `declarations_of_parse`: the entries of a text are those that its tokens declare.
-/

namespace KconfigLang

/-- Whether a token declares an entry. -/
def declaresEntry : Token → Bool
  | .keyword .config | .keyword .menuconfig => true
  | _ => false

/-- The tokens that declare entries in order, each with the token behind it. -/
def declarations : List Lexed → List (Lexed × Option Lexed)
  | [] => []
  | t :: ts => if declaresEntry t.token then (t, ts.head?) :: declarations ts else declarations ts

/-- An entry is the one that a token declares: its span starts at that token, and its name is the identifier behind the
token. -/
structure Config.DeclaredBy (c : Config) (d : Lexed × Option Lexed) : Prop where
  symbol : d.2 = some ⟨.ident c.symbol.name, c.symbol.span⟩
  span : c.span = { d.1.span with stop := c.span.stop }

namespace Derivation

/-- Some tokens declare some entries in order, whatever stands behind them. -/
def WritesEntries (ts : List Lexed) (cs : List Config) : Prop :=
  ∃ ds, List.Forall₂ Config.DeclaredBy cs ds ∧ ∀ rest, declarations (ts ++ rest) = ds ++ declarations rest

namespace WritesEntries

variable {t : Lexed} {ts us : List Lexed} {cs es : List Config}

theorem nil : WritesEntries [] [] :=
  ⟨[], .nil, fun _ => rfl⟩

theorem cons (h : WritesEntries ts cs) (ht : declaresEntry t.token = false) : WritesEntries (t :: ts) cs := by
  obtain ⟨ds, hds, hrest⟩ := h
  refine ⟨ds, hds, fun rest => ?_⟩
  rw [List.cons_append, declarations, if_neg (by simp [ht]), hrest]

theorem append (h : WritesEntries ts cs) (h' : WritesEntries us es) : WritesEntries (ts ++ us) (cs ++ es) := by
  obtain ⟨ds, hds, hrest⟩ := h
  obtain ⟨ds', hds', hrest'⟩ := h'
  refine ⟨ds ++ ds', List.rel_append hds hds', fun rest => ?_⟩
  rw [List.append_assoc, hrest, hrest', List.append_assoc]

theorem of_forall (h : ∀ t ∈ ts, declaresEntry t.token = false) : WritesEntries ts [] := by
  induction ts with
  | nil => exact nil
  | cons t ts ih =>
    obtain ⟨ht, hts⟩ := List.forall_mem_cons.mp h
    exact (ih hts).cons ht

end WritesEntries

/-! ## Lines -/

theorem declaresEntry_of_isPlain {t : Token} (h : isPlain t = true) : declaresEntry t = false := by
  refine Bool.eq_false_iff.mpr fun hentry => ?_
  unfold declaresEntry at hentry
  split at hentry
  all_goals first | exact absurd h Bool.false_ne_true | exact absurd hentry Bool.false_ne_true

theorem declaresEntry_of_startsType {t : Token} (h : startsType t = true) : declaresEntry t = false := by
  unfold startsType at h
  split at h
  all_goals first | rfl | exact absurd h Bool.false_ne_true

theorem AllTokens.writesEntries {ts : List Lexed} (h : AllPlain ts) : WritesEntries ts [] :=
  .of_forall fun t ht => declaresEntry_of_isPlain (h t ht)

theorem IsTyped.writesEntries {ts : List Lexed} {start : Nat} (h : IsTyped ts start) : WritesEntries ts [] := by
  obtain ⟨t, rest, rfl, ht, -, hrest⟩ := h
  exact hrest.plain.writesEntries.cons (declaresEntry_of_startsType ht)

theorem EntryLine.writesEntries (d : EntryLine) : WritesEntries (EntryLine.phrase.tokens d) [] := by
  rcases d.tokens_cases with ⟨-, hinner⟩ | ⟨decl, -, htyped⟩
  · exact hinner.plain.writesEntries
  · exact htyped.writesEntries

theorem ChoiceLine.writesEntries (d : ChoiceLine) : WritesEntries (ChoiceLine.phrase.tokens d) [] := by
  rcases d.tokens_cases with hinner | ⟨start, htyped⟩
  · exact hinner.plain.writesEntries
  · exact htyped.writesEntries

/-- What each of some derivations declares, all of them declare together. -/
theorem writesEntries_flatMap {D : Type} {tokens : D → List Lexed} {entries : D → List Config}
    (h : ∀ d, WritesEntries (tokens d) (entries d)) (ds : List D) :
    WritesEntries (ds.flatMap tokens) (ds.flatMap entries) := by
  induction ds with
  | nil => exact .nil
  | cons d ds ih =>
    rw [List.flatMap_cons, List.flatMap_cons]
    exact (h d).append ih

theorem writesEntries_lines {D α : Type} {P : Phrase D α} (h : ∀ d, WritesEntries (P.tokens d) []) (ds : List D) :
    WritesEntries (P.list.tokens ds) [] := by
  have hlines := writesEntries_flatMap h ds
  rwa [List.flatMap_eq_nil_iff.mpr fun _ _ => rfl] at hlines

/-! ## Entries and statements -/

/-- An entry begins with the token that declares it, behind which stands its name. -/
theorem writesEntries_entry {word : Keyword} (hword : declaresEntry (.keyword word) = true) (d : Entry) :
    WritesEntries ((entryPhrase word).tokens d) [(entryPhrase word).tree d] := by
  obtain ⟨ds, hds, hlines⟩ := writesEntries_lines EntryLine.writesEntries d.lines
  obtain rfl := List.forall₂_nil_left_iff.mp hds
  refine ⟨[(⟨.keyword word, d.pos⟩, some (identToken d.name))], .cons ⟨rfl, rfl⟩ .nil, fun rest => ?_⟩
  show declarations (⟨.keyword word, d.pos⟩ :: identToken d.name :: (EntryLine.phrase.list.tokens d.lines ++ rest)) = _
  have hname : declaresEntry (identToken d.name).token = false := rfl
  rw [declarations, if_pos hword, declarations, if_neg (by simp [hname]), hlines]
  rfl

theorem writesEntries_members (ds : List Entry) :
    WritesEntries ((entryPhrase .config).list.tokens ds) ((entryPhrase .config).list.tree ds) := by
  have hentry : ∀ d, WritesEntries ((entryPhrase .config).tokens d) [(entryPhrase .config).tree d] :=
    writesEntries_entry rfl
  have hmembers := writesEntries_flatMap hentry ds
  rwa [← List.map_eq_flatMap] at hmembers

/-- A block declares nothing with the keyword that ends it. -/
theorem writesEntries_body {ts : List Lexed} {cs : List Config} (h : WritesEntries ts cs) (word : Keyword)
    (hword : declaresEntry (.keyword word) = false) (stop : Span) :
    WritesEntries (ts ++ [⟨.keyword word, stop⟩]) cs := by
  rw [← List.append_nil cs]
  exact h.append (WritesEntries.nil.cons hword)

theorem writesEntries_choice (d : ChoiceBlock) :
    WritesEntries (choicePhrase.tokens d) (choicePhrase.tree d).members := by
  have hmembers := writesEntries_body (writesEntries_members (d.first :: d.more)) .endchoice rfl d.stop
  exact ((writesEntries_lines ChoiceLine.writesEntries d.lines).append hmembers).cons rfl

mutual

/-- The tokens of a statement declare its entries. -/
theorem Statement.writesEntries : ∀ d : Statement,
    WritesEntries d.tokens ((Stmt.walk d.tree).flatMap Stmt.ownConfigs)
  | .config d => writesEntries_entry rfl d
  | .menuconfig d => writesEntries_entry rfl d
  | .choice d => by
    have hmembers := writesEntries_choice d
    rwa [← List.append_nil (choicePhrase.tree d).members] at hmembers
  | .comment d => (plain_comment d).writesEntries
  | .menu _ _ lines body stop => by
    have hlines := (allTokens_list MenuLine.inner lines).plain.writesEntries
    exact ((hlines.append (writesEntries_body (Statement.writesEntries_all body) .endmenu rfl stop)).cons rfl).cons rfl
  | .ifBlock _ cond body stop => by
    have hcond := cond.inner.plain.writesEntries
    exact (hcond.append (writesEntries_body (Statement.writesEntries_all body) .endif rfl stop)).cons rfl
  | .source d => by
    have hkeyword : declaresEntry (.keyword (sourceKeyword d.kind)) = false := by cases d.kind <;> rfl
    exact (WritesEntries.nil.cons rfl).cons hkeyword

/-- The tokens of a block declare its entries. -/
theorem Statement.writesEntries_all : ∀ ds : List Statement, WritesEntries (tokensAll ds) (configs (treeAll ds))
  | [] => .nil
  | d :: ds => by
    have hconfigs : configs (treeAll (d :: ds)) = (Stmt.walk d.tree).flatMap Stmt.ownConfigs ++ configs (treeAll ds) :=
      List.flatMap_append
    rw [hconfigs]
    exact d.writesEntries.append (Statement.writesEntries_all ds)

end

theorem File.writesEntries (id : FileId) (d : File) :
    WritesEntries ((File.phrase id).tokens d) (configs ((File.phrase id).tree d).statements) := by
  have hstatements := Statement.writesEntries_all d.statements
  rw [Statement.tokensAll_eq, Statement.treeAll_eq] at hstatements
  exact (plain_title d.title).writesEntries.append hstatements

end Derivation

/-- **Every declaration is an entry**: the entries of a parsed text, in menus, conditional blocks and choices at any
nesting too, are those that its tokens declare, one for each `config` and `menuconfig` and in their order. The name of
an entry is the identifier behind the keyword, and its span starts at the keyword. -/
theorem declarations_of_parse {id : FileId} {text : String} {root : Root} (h : parse id text = .ok root) :
    ∃ ts, tokenize (.ofChars id text.toList) text.toList = .ok ts ∧
      List.Forall₂ Config.DeclaredBy (configs root.statements) (declarations ts) := by
  obtain ⟨d, htokens, rfl, -⟩ := (parse_eq_ok_iff id text root).mp h
  obtain ⟨ds, hds, hrest⟩ := Derivation.File.writesEntries id d
  have hall := hrest []
  rw [List.append_nil, declarations, List.append_nil] at hall
  exact ⟨_, htokens, hall ▸ hds⟩

/-- Entries in a choice, in a conditional block and in a menu, and others before and behind them. -/
def nestedEntriesText : String :=
  "config A\nmenu \"M\"\nif A\nchoice\n\tbool\nconfig B\nconfig C\nendchoice\nendif\nmenuconfig D\nendmenu\nconfig E\n"

theorem declarations_nestedEntriesText : ∃ root, parse .root nestedEntriesText = .ok root ∧
    (configs root.statements).map (·.symbol.name) = ["A", "B", "C", "D", "E"] ∧
    ∃ ts, tokenize (.ofChars .root nestedEntriesText.toList) nestedEntriesText.toList = .ok ts ∧
      List.Forall₂ Config.DeclaredBy (configs root.statements) (declarations ts) := by
  have hnames : (parse .root nestedEntriesText).map (fun root => (configs root.statements).map (·.symbol.name)) =
      .ok ["A", "B", "C", "D", "E"] := by decide +kernel
  cases h : parse .root nestedEntriesText with
  | error e =>
    rw [h] at hnames
    exact nomatch hnames
  | ok root =>
    rw [h] at hnames
    exact ⟨root, rfl, Except.ok.inj hnames, declarations_of_parse h⟩

end KconfigLang
