import KconfigLang.Grammar.Stmt
import KconfigLang.Proofs.Grammar.PropertyDerivation

/-!
# Derivations of statements

The grammar of files as derivation trees:

```
File      = [ "mainmenu" STRING ] { Statement }
Statement = ("config" | "menuconfig") SYMBOL { EntryLine }
          | "choice" { ChoiceLine } Entry { Entry } "endchoice"
          | "comment" STRING { DependsLine }
          | "menu" STRING { MenuLine } { Statement } "endmenu"
          | "if" EXPR { Statement } "endif"
          | ("source" | "rsource" | "osource" | "orsource") STRING
```

- `Statement.tokens` and `Statement.tree`: the tokens that a derivation writes and its statement.
- `Statement.conflicts`: the entries that declare two types; they are derivable and yet refused.
- `reads_statement` and `reads_file`: the readers read these derivations.
-/

namespace KconfigLang.Derivation

/-! ## Derivation trees -/

/-- An entry behind a keyword. -/
structure Entry where
  pos : Span
  name : Ident
  lines : List EntryLine

/-- A choice; it has a first member. -/
structure ChoiceBlock where
  pos : Span
  lines : List ChoiceLine
  first : Entry
  more : List Entry
  stop : Span

/-- A comment with its dependencies. -/
structure CommentLine where
  pos : Span
  text : StringNode
  lines : List DependsLine

/-- An inclusion. -/
structure SourceLine where
  kind : SourceKind
  pos : Span
  path : StringNode

/-- A statement. -/
inductive Statement where
  | config (entry : Entry)
  | menuconfig (entry : Entry)
  | choice (block : ChoiceBlock)
  | comment (line : CommentLine)
  | menu (pos : Span) (title : StringNode) (lines : List MenuLine) (body : List Statement)
    (stop : Span)
  | ifBlock (pos : Span) (condition : Disjunction) (body : List Statement) (stop : Span)
  | source (line : SourceLine)

/-- The title of a configuration. -/
structure TitleLine where
  pos : Span
  text : StringNode

/-- A whole file. -/
structure File where
  title : Option TitleLine
  statements : List Statement

/-! ## Phrases of statements without a body -/

/-- The phrase of entries behind the keyword `word`. -/
def entryPhrase (word : Keyword) : Phrase Entry Config := .spanned {
  tokens := fun d => ⟨.keyword word, d.pos⟩ :: identToken d.name ::
    EntryLine.phrase.list.tokens d.lines
  tree := fun d => .mk d.name (EntryLine.phrase.list.tree d.lines)
  conflicts := fun d => (Grammar.typeConflict? (EntryLine.phrase.list.tree d.lines)).toList }

/-- The phrase of choices. -/
def choicePhrase : Phrase ChoiceBlock Choice := .spanned {
  tokens := fun d => ⟨.keyword .choice, d.pos⟩ :: (ChoiceLine.phrase.list.tokens d.lines ++
    ((entryPhrase .config).list.tokens (d.first :: d.more) ++ [⟨.keyword .endchoice, d.stop⟩]))
  tree := fun d => .mk (ChoiceLine.phrase.list.tree d.lines)
    ((entryPhrase .config).list.tree (d.first :: d.more))
  conflicts := fun d => (entryPhrase .config).list.conflicts (d.first :: d.more) }

/-- The phrase of comments. -/
def commentPhrase : Phrase CommentLine Comment := .spanned {
  tokens := fun d => ⟨.keyword .comment, d.pos⟩ :: stringToken d.text ::
    dependsPhrase.list.tokens d.lines
  tree := fun d => .mk d.text (dependsPhrase.list.tree d.lines)
  conflicts := fun _ => [] }

/-- The keyword of an inclusion. -/
def sourceKeyword : SourceKind → Keyword
  | .plain => .source
  | .relative => .rsource
  | .optional => .osource
  | .optionalRelative => .orsource

/-- The phrase of inclusions. -/
def sourcePhrase : Phrase SourceLine Source := .spanned {
  tokens := fun d => [⟨.keyword (sourceKeyword d.kind), d.pos⟩, stringToken d.path]
  tree := fun d => .mk d.kind d.path
  conflicts := fun _ => [] }

/-- The phrase of titles. -/
def titlePhrase : Phrase TitleLine MainMenu := .spanned {
  tokens := fun d => [⟨.keyword .mainmenu, d.pos⟩, stringToken d.text]
  tree := fun d => .mk d.text
  conflicts := fun _ => [] }

/-! ## Phrases of statements -/

mutual

/-- The tokens of a statement. -/
def Statement.tokens : Statement → List Lexed
  | .config d => (entryPhrase .config).tokens d
  | .menuconfig d => (entryPhrase .menuconfig).tokens d
  | .choice d => choicePhrase.tokens d
  | .comment d => commentPhrase.tokens d
  | .menu pos title lines body stop => ⟨.keyword .menu, pos⟩ :: stringToken title ::
    (MenuLine.phrase.list.tokens lines ++ (tokensAll body ++ [⟨.keyword .endmenu, stop⟩]))
  | .ifBlock pos cond body stop => ⟨.keyword .ifBlock, pos⟩ ::
    (cond.tokens ++ (tokensAll body ++ [⟨.keyword .endif, stop⟩]))
  | .source d => sourcePhrase.tokens d

/-- The tokens of a block. -/
def Statement.tokensAll : List Statement → List Lexed
  | [] => []
  | d :: ds => d.tokens ++ tokensAll ds

end

mutual

/-- The statement of a derivation. -/
def Statement.tree : Statement → Stmt
  | .config d => .config ((entryPhrase .config).tree d)
  | .menuconfig d => .menuconfig ((entryPhrase .menuconfig).tree d)
  | .choice d => .choice (choicePhrase.tree d)
  | .comment d => .comment (commentPhrase.tree d)
  | .menu pos title lines body stop => .menu ⟨title, MenuLine.phrase.list.tree lines,
      spanOf (Statement.menu pos title lines body stop).tokens⟩ (treeAll body)
  | .ifBlock pos cond body stop => .ifBlock cond.tree (treeAll body)
      (spanOf (Statement.ifBlock pos cond body stop).tokens)
  | .source d => .source (sourcePhrase.tree d)

/-- The statements of a block. -/
def Statement.treeAll : List Statement → List Stmt
  | [] => []
  | d :: ds => d.tree :: treeAll ds

end

mutual

/-- The conflicts of types in a statement. -/
def Statement.conflicts : Statement → List TypeConflict
  | .config d => (entryPhrase .config).conflicts d
  | .menuconfig d => (entryPhrase .menuconfig).conflicts d
  | .choice d => choicePhrase.conflicts d
  | .menu _ _ _ body _ | .ifBlock _ _ body _ => conflictsAll body
  | .comment _ | .source _ => []

/-- The conflicts of types in a block. -/
def Statement.conflictsAll : List Statement → List TypeConflict
  | [] => []
  | d :: ds => d.conflicts ++ conflictsAll ds

end

/-- The phrase of statements. -/
@[simps]
def Statement.phrase : Phrase Statement Stmt :=
  ⟨Statement.tokens, Statement.tree, Statement.conflicts⟩

/-- The phrase of files. -/
@[simps]
def File.phrase (id : FileId) : Phrase File Root where
  tokens d := titlePhrase.option.tokens d.title ++ Statement.phrase.list.tokens d.statements
  tree d := ⟨id, none, titlePhrase.option.tree d.title, Statement.phrase.list.tree d.statements⟩
  conflicts d := Statement.phrase.list.conflicts d.statements

namespace Statement

theorem tokensAll_eq (ds : List Statement) : tokensAll ds = phrase.list.tokens ds := by
  induction ds with
  | nil => rfl
  | cons d ds ih => simp [tokensAll, ih]

theorem treeAll_eq (ds : List Statement) : treeAll ds = phrase.list.tree ds := by
  induction ds with
  | nil => rfl
  | cons d ds ih => simp [treeAll, ih]

theorem conflictsAll_eq (ds : List Statement) : conflictsAll ds = phrase.list.conflicts ds := by
  induction ds with
  | nil => rfl
  | cons d ds ih => simp [conflictsAll, ih]

theorem tokensAll_append (ds es : List Statement) :
    tokensAll (ds ++ es) = tokensAll ds ++ tokensAll es := by
  simp [tokensAll_eq]

theorem treeAll_append (ds es : List Statement) : treeAll (ds ++ es) = treeAll ds ++ treeAll es := by
  simp [treeAll_eq]

theorem conflictsAll_append (ds es : List Statement) :
    conflictsAll (ds ++ es) = conflictsAll ds ++ conflictsAll es := by
  simp [conflictsAll_eq]

end Statement

/-! ## First tokens and what may follow -/

/-- Whether a token includes a file. -/
def startsSource : Token → Bool
  | .keyword .source | .keyword .rsource | .keyword .osource | .keyword .orsource => true
  | _ => false

/-- Whether a token starts a statement. -/
def startsStatement (t : Token) : Bool :=
  t == .keyword .config || (t == .keyword .menuconfig || (t == .keyword .choice ||
    (t == .keyword .comment || (t == .keyword .menu || (t == .keyword .ifBlock || startsSource t)))))

/-- What may follow a statement. -/
def afterStatement (t : Token) : Bool :=
  afterLine t && !startsEntryLine t

/-- What may follow a block. -/
def afterBlock (t : Token) : Bool :=
  afterStatement t && !startsStatement t

theorem afterLine_of_afterStatement (t : Token) (h : afterStatement t = true) :
    afterLine t = true :=
  ((Bool.and_eq_true _ _).mp h).1

theorem afterStatement_of_eq {u : Token} (h : afterStatement u = true) (t : Token)
    (ht : (t == u) = true) : afterStatement t = true := by
  obtain rfl : t = u := by simpa using ht
  exact h

/-- A statement may follow another one. -/
theorem afterStatement_of_startsStatement (t : Token) (h : startsStatement t = true) :
    afterStatement t = true := by
  rcases t with k | m | v | b | v | v | ⟨v, r⟩ | name
  · cases k <;> first | rfl | exact absurd h (by decide)
  all_goals exact absurd h (by simp [startsStatement, startsSource])

theorem afterStatement_of_afterBlock (t : Token) (h : afterBlock t = true) :
    afterStatement t = true ∧ startsStatement t = false := by
  simpa [afterBlock] using h

/-! ## Statements without a body -/

open Reader

variable {n : Nat}

/-- A line of an entry may follow another one. -/
theorem afterLine_of_startsEntryLine (t : Token) (h : startsEntryLine t = true) :
    afterLine t = true := by
  rcases t with k | m | v | b | v | v | ⟨v, r⟩ | name
  · cases k <;> first | rfl | exact absurd h (by decide)
  · exact absurd h (by simp [startsEntryLine, startsType, startsHelp])
  · exact absurd h (by simp [startsEntryLine, startsType, startsHelp])
  · rfl
  all_goals exact absurd h (by simp [startsEntryLine, startsType, startsHelp])

theorem afterLine_of_startsChoiceLine (t : Token) (h : startsChoiceLine t = true) :
    afterLine t = true := by
  refine afterLine_of_startsEntryLine t ?_
  simp only [startsChoiceLine, startsEntryLine, Bool.or_eq_true] at h ⊢
  rcases h with h | h | h | h | h | h <;> simp [h]

theorem afterLine_of_startsMenuLine (t : Token) (h : startsMenuLine t = true) :
    afterLine t = true := by
  rcases t with k | _ | _ | _ | _ | _ | _ | _
  · cases k <;> first | rfl | exact absurd h (by decide)
  all_goals exact absurd h (by simp [startsMenuLine])

theorem begins_entry (word : Keyword) : (entryPhrase word).Begins (· == .keyword word) :=
  fun _ => ⟨_, _, rfl, by simp⟩

theorem reads_entryLines :
    Reads n (many Grammar.entryProperty) EntryLine.phrase.list afterStatement :=
  reads_entryLine.reads.many (reads_entryLine (n := n)).begins afterLine_of_startsEntryLine
    fun t ht => by simpa [afterStatement] using ht

theorem reads_entry (word : Keyword) (name : Construct) :
    Reads n (Grammar.entry word name) (entryPhrase word) afterStatement := by
  refine (reads_keyworded word name (reads_symbol.andThen fun _ =>
    reads_entryLines.bind (fun _ => (Reads.report _).andReturn _) fun _ => ?_)).reshape
    (fun d => ⟨d.1, d.2.1, d.2.2.1⟩) (fun d => ⟨(d.pos, d.name, d.lines, ()), rfl⟩) ?_ ?_ ?_
  · exact fun _ _ h => h
  · rintro ⟨pos, id, lines, ⟨⟩⟩
    simp [entryPhrase]
  · rintro ⟨pos, id, lines, ⟨⟩⟩
    simp [entryPhrase]
  · rintro ⟨pos, id, lines, ⟨⟩⟩
    simp [entryPhrase, EntryLine.phrase]

theorem begins_choice : choicePhrase.Begins (· == .keyword .choice) :=
  fun _ => ⟨_, _, rfl, rfl⟩

/-- `config` starts a member and nothing in the lines of a choice, so the first one ends the lines. -/
theorem reads_choiceLines :
    Reads n (many Grammar.choiceProperty) ChoiceLine.phrase.list (· == .keyword .config) := by
  refine reads_choiceLine.reads.many (reads_choiceLine (n := n)).begins
    afterLine_of_startsChoiceLine fun t ht => ?_
  obtain rfl : t = .keyword .config := by simpa using ht
  exact ⟨rfl, rfl⟩

theorem reads_members : Reads n (many1 Grammar.configEntry)
    ((entryPhrase .config).seq fun d => (entryPhrase .config).list.map
      ((entryPhrase .config).tree d :: ·)) (· == .keyword .endchoice) := by
  refine (reads_entry .config .configEntry).many1 (begins_entry _)
    (afterStatement_of_eq rfl) fun t ht => ?_
  obtain rfl : t = .keyword .endchoice := by simpa using ht
  exact ⟨rfl, rfl⟩

theorem reads_choice : Reads n Grammar.choice choicePhrase anyToken := by
  refine (reads_keyworded .choice .choice (reads_choiceLines.bind (fun _ =>
    reads_members.bind (fun _ => (Reads.keyword .endchoice).andReturn _) fun _ => ?_) fun _ => ?_)).reshape
    (fun d => ⟨d.1, d.2.1, d.2.2.1.1, d.2.2.1.2, d.2.2.2⟩)
    (fun d => ⟨(d.pos, d.lines, (d.first, d.more), d.stop), rfl⟩) ?_ ?_ ?_
  · exact (begins_keyword .endchoice).leads _ fun _ h => h
  · exact (((begins_entry .config).seq _).seq _).leads _ fun _ h => h
  · rintro ⟨pos, lines, ⟨first, more⟩, stop⟩
    simp [choicePhrase]
  · rintro ⟨pos, lines, ⟨first, more⟩, stop⟩
    simp [choicePhrase]
  · rintro ⟨pos, lines, ⟨first, more⟩, stop⟩
    simp [choicePhrase, ChoiceLine.phrase]

theorem begins_comment : commentPhrase.Begins (· == .keyword .comment) :=
  fun _ => ⟨_, _, rfl, rfl⟩

theorem reads_comment : Reads n Grammar.comment commentPhrase afterStatement := by
  have hlines : Reads n (many Grammar.dependsOn) dependsPhrase.list afterStatement := by
    refine reads_depends.many begins_depends (fun t ht => ?_) fun t ht => ?_
    · obtain rfl : t = .keyword .depends := by simpa using ht
      rfl
    · refine ⟨afterLine_of_afterStatement t ht, beq_false_of_ne ?_⟩
      rintro rfl
      exact absurd ht (by decide)
  refine (reads_keyworded .comment .comment
    (reads_string.andThen fun _ => hlines.andReturn _)).reshape
    (fun d => ⟨d.1, d.2.1, d.2.2⟩) (fun d => ⟨(d.pos, d.text, d.lines), rfl⟩) (fun _ => rfl)
    (fun _ => rfl) ?_
  rintro ⟨pos, text, lines⟩
  simp [commentPhrase, dependsPhrase]

theorem reads_title : Reads n Grammar.mainMenu titlePhrase anyToken :=
  (reads_keyworded .mainmenu .mainmenu (reads_string.andReturn _)).reshape
    (fun d => ⟨d.1, d.2⟩) (fun d => ⟨(d.pos, d.text), rfl⟩) (fun _ => rfl) (fun _ => rfl)
    fun _ => rfl

theorem begins_title : titlePhrase.Begins (· == .keyword .mainmenu) :=
  fun _ => ⟨_, _, rfl, rfl⟩

/-- The token that starts an inclusion. -/
def sourceToken (d : SourceKind × Span) : Lexed :=
  ⟨.keyword (sourceKeyword d.1), d.2⟩

theorem begins_source : sourcePhrase.Begins startsSource :=
  fun ⟨kind, _, _⟩ => ⟨_, _, rfl, by cases kind <;> rfl⟩

theorem begins_sourceToken {α : Type} (tree : SourceKind × Span → α) :
    (Phrase.token sourceToken tree).Begins startsSource :=
  Phrase.begins_token fun ⟨kind, _⟩ => by cases kind <;> rfl

/-- The keyword of an inclusion is one of four. -/
theorem reads_sourceKeyword : Reads n
    (oneOf fun
      | .keyword .source => some SourceKind.plain
      | .keyword .rsource => some .relative
      | .keyword .osource => some .optional
      | .keyword .orsource => some .optionalRelative
      | _ => none) (Phrase.token sourceToken Prod.fst) anyToken := by
  refine Reads.oneOf _ sourceToken Prod.fst ?_ ?_ ?_
  · rintro ⟨k, pos⟩ ⟨k', pos'⟩ h
    cases k <;> cases k' <;> simp_all [sourceToken, sourceKeyword]
  · rintro ⟨k, pos⟩
    cases k <;> rfl
  · rintro ⟨t, pos⟩ kind h
    split at h <;> cases h
    · exact ⟨(.plain, pos), by simp_all [sourceToken, sourceKeyword], rfl⟩
    · exact ⟨(.relative, pos), by simp_all [sourceToken, sourceKeyword], rfl⟩
    · exact ⟨(.optional, pos), by simp_all [sourceToken, sourceKeyword], rfl⟩
    · exact ⟨(.optionalRelative, pos), by simp_all [sourceToken, sourceKeyword], rfl⟩

theorem reads_source : Reads n Grammar.source sourcePhrase anyToken :=
  Reads.labelled (.reshape (.withSpan (reads_sourceKeyword.andThen fun _ => reads_string.andReturn _)
    ((begins_sourceToken _).seq _))
    (fun d => ⟨d.1.1, d.1.2, d.2⟩) (fun d => ⟨((d.kind, d.pos), d.path), rfl⟩) (fun _ => rfl)
    (fun _ => rfl) fun _ => rfl) _

/-! ## Blocks -/

theorem begins_statement : Statement.phrase.Begins startsStatement := by
  rintro (d | d | d | d | ⟨pos, title, lines, body, stop⟩ | ⟨pos, cond, body, stop⟩ |
    ⟨kind, pos, path⟩)
  · exact ⟨_, _, rfl, rfl⟩
  · exact ⟨_, _, rfl, rfl⟩
  · exact ⟨_, _, rfl, rfl⟩
  · exact ⟨_, _, rfl, rfl⟩
  · exact ⟨_, _, rfl, rfl⟩
  · exact ⟨_, _, rfl, rfl⟩
  · exact ⟨_, _, rfl, by cases kind <;> rfl⟩

/-- A block is read up to a token that neither goes on with its last statement nor starts another one. -/
theorem reads_block {inner : Reader Stmt} (h : Reads n inner Statement.phrase afterStatement) :
    Reads n (many inner) Statement.phrase.list afterBlock :=
  h.many begins_statement afterStatement_of_startsStatement afterStatement_of_afterBlock

/-- Whether a token starts a statement or ends the block of them. -/
def startsBody (stop : Keyword) (t : Token) : Bool :=
  startsStatement t || t == .keyword stop

theorem afterLine_of_startsBody {stop : Keyword} (h : afterLine (.keyword stop) = true) (t : Token)
    (ht : startsBody stop t = true) : afterLine t = true := by
  rcases (Bool.or_eq_true _ _).mp ht with ht | ht
  · exact afterLine_of_afterStatement t (afterStatement_of_startsStatement t ht)
  · obtain rfl : t = .keyword stop := by simpa using ht
    exact h

/-- A block with the keyword that ends it. -/
def bodyPhrase (stop : Keyword) : Phrase (List Statement × Span) (List Stmt) :=
  Statement.phrase.list.seq fun ds =>
    (Phrase.token (fun pos => ⟨.keyword stop, pos⟩) fun _ => ()).map fun _ =>
      Statement.phrase.list.tree ds

theorem reads_body {inner : Reader Stmt} (h : Reads n inner Statement.phrase afterStatement)
    {stop : Keyword} (hstop : afterBlock (.keyword stop) = true) {α : Type} (f : List Stmt → α) :
    Reads n (do let body ← many inner; keyword stop; return f body) ((bodyPhrase stop).map f)
      anyToken := by
  refine (Reads.bind (reads_block h)
    (fun ds => (Reads.keyword stop).andReturn fun _ => f (Statement.phrase.list.tree ds))
    fun _ => ((begins_keyword stop).map _).leads _ fun t ht => ?_).reshape
    id Function.surjective_id (fun _ => rfl) (fun _ => rfl) fun _ => rfl
  obtain rfl : t = .keyword stop := by simpa using ht
  exact hstop

theorem leads_body (stop : Keyword) {α : Type} (f : List Stmt → α) :
    ((bodyPhrase stop).map f).Leads anyToken (startsBody stop) := by
  refine Phrase.Leads.seq (begins_statement.leads_list (fun t ht => ?_) fun t ht => ?_)
    fun _ => (begins_keyword stop).leads _ fun _ h => h
  · simp [startsBody, ht]
  · simp only [startsBody, ht, Bool.or_true]

/-- The phrase of menus. -/
@[simps]
def menuPhrase : Phrase (Span × StringNode × List MenuLine × List Statement × Span) Stmt where
  tokens d := (Statement.menu d.1 d.2.1 d.2.2.1 d.2.2.2.1 d.2.2.2.2).tokens
  tree d := (Statement.menu d.1 d.2.1 d.2.2.1 d.2.2.2.1 d.2.2.2.2).tree
  conflicts d := (Statement.menu d.1 d.2.1 d.2.2.1 d.2.2.2.1 d.2.2.2.2).conflicts

theorem begins_menu : menuPhrase.Begins (· == .keyword .menu) :=
  fun _ => ⟨_, _, rfl, rfl⟩

/-- Neither a statement nor `endmenu` starts with the keyword of a menu line, so the lines end there. -/
theorem reads_menuLines :
    Reads n (many Grammar.menuProperty) MenuLine.phrase.list (startsBody .endmenu) := by
  refine reads_menuLine.reads.many (reads_menuLine (n := n)).begins afterLine_of_startsMenuLine
    fun t ht => ⟨afterLine_of_startsBody rfl t ht, Bool.eq_false_iff.mpr fun hmenu => ?_⟩
  rcases (Bool.or_eq_true _ _).mp hmenu with hmenu | hmenu
  all_goals
    rw [eq_of_beq hmenu] at ht
    exact absurd ht (by decide)

theorem reads_menu {inner : Reader Stmt} (h : Reads n inner Statement.phrase afterStatement) :
    Reads (n + 1) (Grammar.menu inner) menuPhrase anyToken := by
  refine Reads.labelled (.reshape (.withSpan (.bind_shorter (.keyword .menu) (begins_keyword .menu)
    (fun _ => reads_string.andThen fun _ => reads_menuLines.bind (fun _ => reads_body h rfl _)
      fun _ => leads_body .endmenu _) fun _ => Phrase.leads_anyToken _ _) ((begins_keyword .menu).seq _))
    id Function.surjective_id ?_ ?_ ?_) _
  · rintro ⟨pos, title, lines, body, stop⟩
    simp [Statement.tokens, Statement.tokensAll_eq, bodyPhrase]
  · rintro ⟨pos, title, lines, body, stop⟩
    simp [Statement.tokens, Statement.tokensAll_eq, Statement.tree, Statement.treeAll_eq, bodyPhrase]
  · rintro ⟨pos, title, lines, body, stop⟩
    simp [Statement.conflicts, Statement.conflictsAll_eq, bodyPhrase, MenuLine.phrase]

/-- The phrase of conditional blocks. -/
@[simps]
def ifPhrase : Phrase (Span × Disjunction × List Statement × Span) Stmt where
  tokens d := (Statement.ifBlock d.1 d.2.1 d.2.2.1 d.2.2.2).tokens
  tree d := (Statement.ifBlock d.1 d.2.1 d.2.2.1 d.2.2.2).tree
  conflicts d := (Statement.ifBlock d.1 d.2.1 d.2.2.1 d.2.2.2).conflicts

theorem begins_if : ifPhrase.Begins (· == .keyword .ifBlock) :=
  fun _ => ⟨_, _, rfl, rfl⟩

theorem reads_if {inner : Reader Stmt} (h : Reads n inner Statement.phrase afterStatement) :
    Reads (n + 1) (Grammar.ifBlock inner) ifPhrase anyToken := by
  have hcondition : Reads n Grammar.expression Disjunction.phrase (startsBody .endif) :=
    reads_expression.of_follow fun t ht =>
      afterExpr_of_afterLine t (afterLine_of_startsBody rfl t ht)
  refine Reads.labelled (.reshape (.withSpan (.bind_shorter (.keyword .ifBlock)
    (begins_keyword .ifBlock) (fun _ => .bind hcondition (fun cond => reads_body h rfl _)
      fun _ => leads_body .endif _) fun _ => Phrase.leads_anyToken _ _)
    ((begins_keyword .ifBlock).seq _)) id Function.surjective_id ?_ ?_ ?_) _
  · rintro ⟨pos, cond, body, stop⟩
    simp [Statement.tokens, Statement.tokensAll_eq, bodyPhrase]
  · rintro ⟨pos, cond, body, stop⟩
    simp [Statement.tokens, Statement.tokensAll_eq, Statement.tree, Statement.treeAll_eq, bodyPhrase]
  · rintro ⟨pos, cond, body, stop⟩
    simp [Statement.conflicts, Statement.conflictsAll_eq, bodyPhrase]

/-! ## Statements and files -/

theorem reads_statementBody {inner : Reader Stmt} (h : Reads n inner Statement.phrase afterStatement) :
    ReadsFrom (n + 1) (Grammar.statementBody inner) Statement.phrase startsStatement
      afterStatement := by
  refine ReadsFrom.reshape
    (.first (apart_eq rfl) ⟨(reads_entry .config .configEntry).map _, (begins_entry .config).map _⟩ <|
      .first (apart_eq rfl)
        ⟨(reads_entry .menuconfig .menuconfigEntry).map _, (begins_entry .menuconfig).map _⟩ <|
      .first (apart_eq rfl)
        ⟨(reads_choice.of_follow fun _ _ => rfl).map _, begins_choice.map _⟩ <|
      .first (apart_eq rfl) ⟨reads_comment.map _, begins_comment.map _⟩ <|
      .first (apart_eq rfl) ⟨(reads_menu h).of_follow fun _ _ => rfl, begins_menu⟩ <|
      .first (apart_eq rfl) ⟨(reads_if h).of_follow fun _ _ => rfl, begins_if⟩
        ⟨(reads_source.of_follow fun _ _ => rfl).map _, begins_source.map _⟩)
    (Sum.elim .config <| Sum.elim .menuconfig <| Sum.elim .choice <| Sum.elim .comment <|
      Sum.elim (fun d => .menu d.1 d.2.1 d.2.2.1 d.2.2.2.1 d.2.2.2.2) <|
      Sum.elim (fun d => .ifBlock d.1 d.2.1 d.2.2.1 d.2.2.2) .source) ?_ ?_ ?_ ?_
  · intro d
    cases d with
    | config d => exact ⟨.inl d, rfl⟩
    | menuconfig d => exact ⟨.inr (.inl d), rfl⟩
    | choice d => exact ⟨.inr (.inr (.inl d)), rfl⟩
    | comment d => exact ⟨.inr (.inr (.inr (.inl d))), rfl⟩
    | menu pos title lines body stop =>
      exact ⟨.inr (.inr (.inr (.inr (.inl (pos, title, lines, body, stop))))), rfl⟩
    | ifBlock pos cond body stop =>
      exact ⟨.inr (.inr (.inr (.inr (.inr (.inl (pos, cond, body, stop)))))), rfl⟩
    | source d => exact ⟨.inr (.inr (.inr (.inr (.inr (.inr d))))), rfl⟩
  · rintro (d | d | d | d | d | d | d) <;> simp [Statement.tokens]
  · rintro (d | d | d | d | d | d | d) <;> simp [Statement.tree]
  · rintro (d | d | d | d | d | d | d) <;>
      simp [Statement.conflicts, commentPhrase, sourcePhrase]

/-- Statements are read as their grammar writes them, wherever no line goes on. -/
theorem reads_statement : Reads n Grammar.statement Statement.phrase afterStatement :=
  .fix fun _ _ h => (reads_statementBody h).reads

theorem reads_titleOption :
    Reads n (Reader.optional Grammar.mainMenu) titlePhrase.option startsStatement := by
  refine reads_title.optional begins_title fun t ht => ⟨rfl, beq_false_of_ne ?_⟩
  rintro rfl
  exact absurd ht (by decide)

/-- Files are read as their grammar writes them, up to the end of the tokens. -/
theorem reads_file (id : FileId) :
    Reads n (Grammar.file id) (File.phrase id) fun _ => false := by
  have hblock : Reads n (many Grammar.statement) Statement.phrase.list fun _ => false :=
    (reads_block reads_statement).of_follow fun _ h => absurd h Bool.false_ne_true
  refine Reads.reshape (.bind reads_titleOption (fun _ => hblock.andReturn _) fun _ =>
      begins_statement.leads_list (fun _ h => h) fun _ h => absurd h Bool.false_ne_true)
    (fun d => ⟨d.1, d.2⟩) (fun d => ⟨(d.title, d.statements), rfl⟩) (fun _ => rfl) (fun _ => rfl) ?_
  rintro ⟨_ | title, statements⟩ <;> simp [titlePhrase]

end KconfigLang.Derivation
