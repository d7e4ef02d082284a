import KconfigLang.Proofs.Grammar.WrittenTrees

/-!
# What the rendering of a tree says

The S-expression of a file leaves out spans, the number and the path of the file and how string literals are
spelled, and nothing else. For trees of texts it can be read back; other trees may look alike, such as a bare
`y` and a tristate literal `y` in one place.

- `isWritten_of_parse`: the tree of a text is written, so its S-expression is read back.
- `sexpr_eq_iff`: two texts have the same S-expression exactly if their trees say the same.
-/

namespace KconfigLang

/-- All of some tokens are readable. -/
def AllReadable (ts : List Lexed) : Prop :=
  ∀ t ∈ ts, t.token.Readable

theorem allReadable_cons {t : Lexed} {ts : List Lexed} :
    AllReadable (t :: ts) ↔ t.token.Readable ∧ AllReadable ts :=
  List.forall_mem_cons

theorem allReadable_append {ts us : List Lexed} :
    AllReadable (ts ++ us) ↔ AllReadable ts ∧ AllReadable us :=
  List.forall_mem_append

namespace Derivation

/-! ## Lines -/

theorem Disjunction.isWritten (d : Disjunction) (h : AllReadable d.tokens) : d.tree.IsWritten := by
  refine ⟨d.isBare_tree, fun t ht => ?_⟩
  obtain ⟨u, hu, rfl⟩ := List.mem_map.mp (d.leafTokens_tree.subset ht)
  exact h u hu

theorem Leaf.isWritten (d : Leaf) (h : d.lexed.token.Readable) : d.tree.IsWritten := by
  refine ⟨d.isBare_tree, fun t ht => ?_⟩
  obtain rfl : t = d.lexed.token := by
    simpa [Unary.tokens] using (Unary.leaf d).leafTokens_tree.subset ht
  exact h

theorem Condition.isWritten (d : Option Condition) (h : AllReadable (Condition.phrase.option.tokens d)) :
    Expr.ConditionIsWritten (Condition.phrase.option.tree d) := by
  intro e he
  obtain ⟨c, rfl, rfl⟩ := Option.map_eq_some_iff.mp he
  exact c.expr.isWritten (allReadable_cons.mp h).2

theorem isWritten_type (ofChoice : Bool) (d : TypeLine) (h : AllReadable (typePhrase.tokens d)) :
    (typePhrase.tree d).IsWritten ofChoice := by
  obtain ⟨kind, pos, _ | shown⟩ := d
  · exact fun e he => absurd he (Option.some_ne_none e).symm
  · exact Condition.isWritten shown.2 (allReadable_cons.mp (allReadable_cons.mp h).2).2

theorem isWritten_prompt (ofChoice : Bool) (d : PromptLine) (h : AllReadable (promptPhrase.tokens d)) :
    (promptPhrase.tree d).IsWritten ofChoice :=
  Condition.isWritten d.condition (allReadable_cons.mp (allReadable_cons.mp h).2).2

theorem isWritten_value {word : Keyword} {stored : Expr → Expr} (d : ValueLine)
    (h : AllReadable ((valuePhrase word stored).tokens d)) (pos : Span) :
    ((valuePhrase word stored).tree d pos).IsWritten stored := by
  obtain ⟨hvalue, hcondition⟩ := allReadable_append.mp (allReadable_cons.mp h).2
  exact ⟨⟨_, d.value.isWritten hvalue, rfl⟩, Condition.isWritten d.condition hcondition⟩

theorem isWritten_reference {word : Keyword} (d : ReferenceLine)
    (h : AllReadable ((referencePhrase word).tokens d)) (pos : Span) :
    ((referencePhrase word).tree d pos).IsWritten := by
  obtain ⟨htarget, hcondition⟩ := allReadable_cons.mp (allReadable_cons.mp h).2
  exact ⟨htarget, Condition.isWritten d.condition hcondition⟩

theorem isWritten_depends (ofChoice : Bool) (d : DependsLine) (h : AllReadable (dependsPhrase.tokens d)) :
    (dependsPhrase.tree d).IsWritten ofChoice :=
  d.condition.isWritten (allReadable_cons.mp (allReadable_cons.mp h).2).2

theorem isWritten_option (ofChoice : Bool) (d : OptionLine) (h : AllReadable (optionPhrase.tokens d)) :
    (optionPhrase.tree d).IsWritten ofChoice :=
  (allReadable_cons.mp (allReadable_cons.mp h).2).1

theorem EntryLine.isWritten (d : EntryLine) (h : AllReadable (EntryLine.phrase.tokens d)) :
    (EntryLine.phrase.tree d).IsWritten false := by
  cases d with
  | type d => exact isWritten_type false d h
  | prompt d => exact isWritten_prompt false d h
  | default d => exact ⟨rfl, isWritten_value d h _⟩
  | defBool d => exact isWritten_value d h _
  | defTristate d => exact isWritten_value d h _
  | dependsOn d => exact isWritten_depends false d h
  | select d => exact isWritten_reference d h _
  | imply d => exact isWritten_reference d h _
  | range d =>
    obtain ⟨hlow, hmore⟩ := allReadable_cons.mp (allReadable_cons.mp h).2
    obtain ⟨hhigh, hcondition⟩ := allReadable_cons.mp hmore
    exact ⟨d.low.isWritten hlow, d.high.isWritten hhigh, Condition.isWritten d.condition hcondition⟩
  | help d => trivial
  | option d => exact isWritten_option false d h

theorem ChoiceLine.isWritten (d : ChoiceLine) (h : AllReadable (ChoiceLine.phrase.tokens d)) :
    (ChoiceLine.phrase.tree d).IsWritten true := by
  cases d with
  | type d => exact isWritten_type true d h
  | prompt d => exact isWritten_prompt true d h
  | defaultMember d => exact ⟨rfl, isWritten_reference d h _⟩
  | dependsOn d => exact isWritten_depends true d h
  | help d => trivial
  | option d => exact isWritten_option true d h

theorem MenuLine.isWritten (d : MenuLine) (h : AllReadable (MenuLine.phrase.tokens d)) :
    (MenuLine.phrase.tree d).IsWritten false := by
  cases d with
  | dependsOn d => exact isWritten_depends false d h
  | visible d => exact d.condition.isWritten (allReadable_cons.mp (allReadable_cons.mp h).2).2

/-! ## Statements -/

/-- What holds of every node of a phrase holds of every node of a list of them. -/
theorem forall_tree_list {D α : Type} {P : Phrase D α} {good : α → Prop}
    (hP : ∀ d, AllReadable (P.tokens d) → good (P.tree d)) (ds : List D)
    (h : AllReadable (P.list.tokens ds)) : ∀ a ∈ P.list.tree ds, good a := by
  intro a ha
  obtain ⟨d, hd, rfl⟩ := List.mem_map.mp ha
  exact hP d fun t ht => h t (List.mem_flatMap.mpr ⟨d, hd, ht⟩)

theorem isWritten_entry (word : Keyword) (d : Entry) (h : AllReadable ((entryPhrase word).tokens d)) :
    ((entryPhrase word).tree d).IsWritten := by
  obtain ⟨hname, hlines⟩ := allReadable_cons.mp (allReadable_cons.mp h).2
  exact ⟨hname, forall_tree_list EntryLine.isWritten d.lines hlines⟩

theorem isWritten_choice (d : ChoiceBlock) (h : AllReadable (choicePhrase.tokens d)) :
    (Stmt.choice (choicePhrase.tree d)).IsWritten := by
  obtain ⟨hlines, hmore⟩ := allReadable_append.mp (allReadable_cons.mp h).2
  obtain ⟨hmembers, -⟩ := allReadable_append.mp hmore
  exact ⟨forall_tree_list ChoiceLine.isWritten d.lines hlines,
    forall_tree_list (isWritten_entry .config) (d.first :: d.more) hmembers⟩

mutual

/-- The statement of readable tokens is written. -/
theorem Statement.isWritten : ∀ d : Statement, AllReadable d.tokens → d.tree.IsWritten
  | .config d, h => isWritten_entry .config d h
  | .menuconfig d, h => isWritten_entry .menuconfig d h
  | .choice d, h => isWritten_choice d h
  | .comment d, h => forall_tree_list (isWritten_depends false) d.lines
      (allReadable_cons.mp (allReadable_cons.mp h).2).2
  | .menu pos title lines body stop, h => by
    obtain ⟨hlines, hmore⟩ := allReadable_append.mp (allReadable_cons.mp (allReadable_cons.mp h).2).2
    obtain ⟨hbody, -⟩ := allReadable_append.mp hmore
    exact ⟨forall_tree_list MenuLine.isWritten lines hlines, isWritten_all body hbody⟩
  | .ifBlock pos cond body stop, h => by
    obtain ⟨hcondition, hmore⟩ := allReadable_append.mp (allReadable_cons.mp h).2
    obtain ⟨hbody, -⟩ := allReadable_append.mp hmore
    exact ⟨cond.isWritten hcondition, isWritten_all body hbody⟩
  | .source d, h => trivial

theorem Statement.isWritten_all : ∀ ds : List Statement, AllReadable (tokensAll ds) →
    Stmt.AllWritten (treeAll ds)
  | [], _ => trivial
  | d :: ds, h => by
    obtain ⟨hd, hds⟩ := allReadable_append.mp h
    exact ⟨d.isWritten hd, isWritten_all ds hds⟩

end

end Derivation

/-! ## Files -/

/-- The tree of a text is written. -/
theorem isWritten_of_parse {file : FileId} {text : String} {root : Root}
    (h : parse file text = .ok root) : root.IsWritten := by
  obtain ⟨d, htokens, rfl, -⟩ := (parse_eq_ok_iff file text root).mp h
  have hreadable : AllReadable ((Derivation.File.phrase file).tokens d) := readable_of_tokenize htokens
  obtain ⟨-, hstatements⟩ := allReadable_append.mp hreadable
  rw [← Derivation.Statement.tokensAll_eq] at hstatements
  have hwritten := Derivation.Statement.isWritten_all d.statements hstatements
  rwa [Derivation.Statement.treeAll_eq] at hwritten

/-- **Renderings**: two texts have the same S-expression exactly if their trees say the same, that is if they
are equal but for spans, the number and the path of the file, and the spelling of string literals. -/
theorem sexpr_eq_iff {file file' : FileId} {text text' : String} {root root' : Root}
    (h : parse file text = .ok root) (h' : parse file' text' = .ok root') :
    root.sexpr = root'.sexpr ↔ root.content = root'.content := by
  have hback := (isWritten_of_parse h).readsBack
  have hback' := (isWritten_of_parse h').readsBack
  constructor
  · intro hsexpr
    have heq : root.toSExpr = root'.toSExpr := SExpr.render_injective hback.clean hback'.clean hsexpr
    exact Option.some.inj (hback.read_eq.symm.trans ((congrArg Root.ofSExpr? heq).trans hback'.read_eq))
  · intro hcontent
    rw [Root.sexpr, Root.sexpr, ← root.toSExpr_content, hcontent, root'.toSExpr_content]

/-- A text whose tree has the S-expression that is asked for. -/
theorem exists_parse_of_sexpr (file : FileId) (text sexpr : String)
    (h : (parse file text).toOption.map Root.sexpr = some sexpr) :
    ∃ root, parse file text = .ok root ∧ root.sexpr = sexpr := by
  cases hparse : parse file text with
  | ok root =>
    rw [hparse] at h
    exact ⟨root, rfl, Option.some.inj h⟩
  | error e =>
    rw [hparse] at h
    exact absurd h (Option.some_ne_none sexpr).symm

/-- A string literal with its characters as they are, and a number with lower-case digits. -/
def plainSpelling : String :=
  "config A\n\tbool \"A\"\n\tdefault 0xa\n"

/-- The same with a code point group, upper-case digits and a comment. -/
def otherSpelling : String :=
  "config A # again\n  bool \"[\"0041\"]\"\n  default 0x0A\n"

theorem otherSpelling_content : ∃ root root', parse .root plainSpelling = .ok root ∧
    parse .root otherSpelling = .ok root' ∧ root.sexpr = root'.sexpr ∧ root.content = root'.content := by
  obtain ⟨root, hroot, hsexpr⟩ := exists_parse_of_sexpr .root plainSpelling
    "(root (config A (type bool \"A\") (default 0xa)))" (by decide +kernel)
  obtain ⟨root', hroot', hsexpr'⟩ := exists_parse_of_sexpr .root otherSpelling
    "(root (config A (type bool \"A\") (default 0xa)))" (by decide +kernel)
  have heq : root.sexpr = root'.sexpr := hsexpr.trans hsexpr'.symm
  exact ⟨root, root', hroot, hroot', heq, (sexpr_eq_iff hroot hroot').mp heq⟩

end KconfigLang
