import KconfigLang.Grammar.Property
import KconfigLang.Proofs.Grammar.ExprDerivation

/-!
# Derivations of properties

The grammar of the lines below entries, choices, menus and comments. Each line has a type of its own, which
keeps the spans of its keywords, and a phrase, which tells its tokens and the property it is.

- `EntryLine`, `ChoiceLine` and `MenuLine`: the lines that may stand in each place.
- `reads_entryLine`, `reads_choiceLine` and `reads_menuLine`: their readers read them.

A bare `y` or `n` is a tristate literal in `default` and `def_tristate` lines and stays what it is elsewhere.
-/

namespace KconfigLang.Derivation

/-! ## Conditions -/

/-- An `if` with its condition. -/
structure Condition where
  pos : Span
  expr : Disjunction

/-- The phrase of a condition. -/
@[simps]
def Condition.phrase : Phrase Condition Expr where
  tokens d := ⟨.keyword .ifCondition, d.pos⟩ :: d.expr.tokens
  tree d := d.expr.tree
  conflicts _ := []

/-- What may follow a line that ends with an optional condition. -/
def afterCondition (t : Token) : Bool :=
  afterExpr t && t != .keyword .ifCondition

/-- What may follow every line. -/
def afterLine (t : Token) : Bool :=
  afterCondition t && !startsString t

/-! ## Lines -/

/-- The keyword of a type. -/
def typeKeyword : SymbolType → Keyword
  | .bool => .bool
  | .tristate => .tristate
  | .int => .int
  | .hex => .hex
  | .string => .string

/-- `TYPE ["text" [if EXPR]]` -/
structure TypeLine where
  kind : SymbolType
  pos : Span
  shown : Option (StringNode × Option Condition)

/-- `prompt "text" [if EXPR]` -/
structure PromptLine where
  pos : Span
  text : StringNode
  condition : Option Condition

/-- A keyword, `EXPR [if EXPR]` -/
structure ValueLine where
  pos : Span
  value : Disjunction
  condition : Option Condition

/-- `depends on EXPR` -/
structure DependsLine where
  pos : Span
  onPos : Span
  condition : Disjunction

/-- `visible if EXPR` -/
structure VisibleLine where
  pos : Span
  ifPos : Span
  condition : Disjunction

/-- A keyword, `SYMBOL [if EXPR]` -/
structure ReferenceLine where
  pos : Span
  target : Ident
  condition : Option Condition

/-- `range LOW HIGH [if EXPR]` -/
structure RangeLine where
  pos : Span
  low : Leaf
  high : Leaf
  condition : Option Condition

/-- A help block. -/
structure HelpLine where
  body : String
  pos : Span

/-- The token of an option name. -/
def optionToken : OptionName → Token
  | .defconfigList => .keyword .defconfigList
  | .modules => .keyword .modules
  | .env => .keyword .env
  | .allnoconfigY => .keyword .allnoconfigY
  | .other name => .ident name

/-- `option NAME [= "value"]` -/
structure OptionLine where
  pos : Span
  name : OptionName
  namePos : Span
  value : Option (Span × StringNode)

/-! ## Phrases of lines -/

/-- The phrase of a prompt text with its condition. -/
def shownPhrase : Phrase (StringNode × Option Condition) (StringNode × Option Expr) :=
  (Phrase.token stringToken id).seq fun text => Condition.phrase.option.map fun cond => (text, cond)

/-- The phrase of types. -/
def typePhrase : Phrase TypeLine Property := .spanned {
  tokens := fun d => ⟨.keyword (typeKeyword d.kind), d.pos⟩ :: shownPhrase.option.tokens d.shown
  tree := fun d span => .type
    ⟨d.kind, d.shown.map (·.1), d.shown.bind (Condition.phrase.option.tree ·.2), span⟩
  conflicts := fun _ => [] }

/-- The phrase of prompts. -/
def promptPhrase : Phrase PromptLine Property := .spanned {
  tokens := fun d => ⟨.keyword .prompt, d.pos⟩ :: stringToken d.text ::
    Condition.phrase.option.tokens d.condition
  tree := fun d => .prompt d.text (Condition.phrase.option.tree d.condition)
  conflicts := fun _ => [] }

/-- The phrase of a keyword, a value and a condition; `stored` says how the value is stored. -/
@[simps]
def valuePhrase (word : Keyword) (stored : Expr → Expr) : Phrase ValueLine (Span → DefaultValue) where
  tokens d := ⟨.keyword word, d.pos⟩ ::
    (d.value.tokens ++ Condition.phrase.option.tokens d.condition)
  tree d := .mk (stored d.value.tree) (Condition.phrase.option.tree d.condition)
  conflicts _ := []

/-- The phrase of defaults. -/
def defaultPhrase : Phrase ValueLine Property :=
  ((valuePhrase .default Expr.tristateLiteral).map fun v span => .default (v span)).spanned

/-- The phrase of defaults that declare the type bool. -/
def defBoolPhrase : Phrase ValueLine Property :=
  ((valuePhrase .defBool id).map fun v span => .defBool (v span)).spanned

/-- The phrase of defaults that declare the type tristate. -/
def defTristatePhrase : Phrase ValueLine Property :=
  ((valuePhrase .defTristate Expr.tristateLiteral).map fun v span => .defTristate (v span)).spanned

/-- The phrase of dependencies. -/
def dependsPhrase : Phrase DependsLine Property := .spanned {
  tokens := fun d => ⟨.keyword .depends, d.pos⟩ :: ⟨.keyword .on, d.onPos⟩ :: d.condition.tokens
  tree := fun d => .dependsOn d.condition.tree
  conflicts := fun _ => [] }

/-- The phrase of conditions under which a menu is shown. -/
def visiblePhrase : Phrase VisibleLine Property := .spanned {
  tokens := fun d => ⟨.keyword .visible, d.pos⟩ :: ⟨.keyword .ifCondition, d.ifPos⟩ ::
    d.condition.tokens
  tree := fun d => .visible d.condition.tree
  conflicts := fun _ => [] }

/-- The phrase of a keyword, a symbol and a condition. -/
@[simps]
def referencePhrase (word : Keyword) : Phrase ReferenceLine (Span → Reference) where
  tokens d := ⟨.keyword word, d.pos⟩ :: identToken d.target ::
    Condition.phrase.option.tokens d.condition
  tree d := .mk d.target (Condition.phrase.option.tree d.condition)
  conflicts _ := []

/-- The phrase of symbols that an entry forces. -/
def selectPhrase : Phrase ReferenceLine Property :=
  ((referencePhrase .select).map fun r span => .select (r span)).spanned

/-- The phrase of symbols that an entry suggests. -/
def implyPhrase : Phrase ReferenceLine Property :=
  ((referencePhrase .imply).map fun r span => .imply (r span)).spanned

/-- The phrase of members that a choice selects by default. -/
def defaultMemberPhrase : Phrase ReferenceLine Property :=
  ((referencePhrase .default).map fun r span => .defaultMember (r span)).spanned

/-- The phrase of ranges. -/
def rangePhrase : Phrase RangeLine Property := .spanned {
  tokens := fun d => ⟨.keyword .range, d.pos⟩ :: d.low.lexed :: d.high.lexed ::
    Condition.phrase.option.tokens d.condition
  tree := fun d => .range d.low.tree d.high.tree (Condition.phrase.option.tree d.condition)
  conflicts := fun _ => [] }

/-- The token of a help block. -/
def helpToken (d : HelpLine) : Lexed :=
  ⟨.help d.body, d.pos⟩

/-- The phrase of help blocks. -/
def helpPhrase : Phrase HelpLine Property :=
  .token helpToken fun d => .help d.body d.pos

/-- The phrase of an equals sign and a string. -/
def equalsPhrase : Phrase (Span × StringNode) StringNode :=
  (Phrase.token (fun pos => ⟨.mark .equal, pos⟩) fun _ => ()).seq fun _ => Phrase.token stringToken id

/-- The phrase of options. -/
def optionPhrase : Phrase OptionLine Property := .spanned {
  tokens := fun d => ⟨.keyword .option, d.pos⟩ :: ⟨optionToken d.name, d.namePos⟩ ::
    equalsPhrase.option.tokens d.value
  tree := fun d => .option d.name (d.value.map (·.2))
  conflicts := fun _ => [] }

/-! ## Which lines stand where -/

/-- The lines of an entry. -/
inductive EntryLine where
  | type (line : TypeLine)
  | prompt (line : PromptLine)
  | default (line : ValueLine)
  | defBool (line : ValueLine)
  | defTristate (line : ValueLine)
  | dependsOn (line : DependsLine)
  | select (line : ReferenceLine)
  | imply (line : ReferenceLine)
  | range (line : RangeLine)
  | help (line : HelpLine)
  | option (line : OptionLine)

/-- The lines of a choice. -/
inductive ChoiceLine where
  | type (line : TypeLine)
  | prompt (line : PromptLine)
  | defaultMember (line : ReferenceLine)
  | dependsOn (line : DependsLine)
  | help (line : HelpLine)
  | option (line : OptionLine)

/-- The lines of a menu. -/
inductive MenuLine where
  | dependsOn (line : DependsLine)
  | visible (line : VisibleLine)

/-- The phrase of the lines of an entry. -/
def EntryLine.phrase : Phrase EntryLine Property where
  tokens
    | .type d => typePhrase.tokens d
    | .prompt d => promptPhrase.tokens d
    | .default d => defaultPhrase.tokens d
    | .defBool d => defBoolPhrase.tokens d
    | .defTristate d => defTristatePhrase.tokens d
    | .dependsOn d => dependsPhrase.tokens d
    | .select d => selectPhrase.tokens d
    | .imply d => implyPhrase.tokens d
    | .range d => rangePhrase.tokens d
    | .help d => helpPhrase.tokens d
    | .option d => optionPhrase.tokens d
  tree
    | .type d => typePhrase.tree d
    | .prompt d => promptPhrase.tree d
    | .default d => defaultPhrase.tree d
    | .defBool d => defBoolPhrase.tree d
    | .defTristate d => defTristatePhrase.tree d
    | .dependsOn d => dependsPhrase.tree d
    | .select d => selectPhrase.tree d
    | .imply d => implyPhrase.tree d
    | .range d => rangePhrase.tree d
    | .help d => helpPhrase.tree d
    | .option d => optionPhrase.tree d
  conflicts _ := []

/-- The phrase of the lines of a choice. -/
def ChoiceLine.phrase : Phrase ChoiceLine Property where
  tokens
    | .type d => typePhrase.tokens d
    | .prompt d => promptPhrase.tokens d
    | .defaultMember d => defaultMemberPhrase.tokens d
    | .dependsOn d => dependsPhrase.tokens d
    | .help d => helpPhrase.tokens d
    | .option d => optionPhrase.tokens d
  tree
    | .type d => typePhrase.tree d
    | .prompt d => promptPhrase.tree d
    | .defaultMember d => defaultMemberPhrase.tree d
    | .dependsOn d => dependsPhrase.tree d
    | .help d => helpPhrase.tree d
    | .option d => optionPhrase.tree d
  conflicts _ := []

/-- The phrase of the lines of a menu. -/
def MenuLine.phrase : Phrase MenuLine Property where
  tokens
    | .dependsOn d => dependsPhrase.tokens d
    | .visible d => visiblePhrase.tokens d
  tree
    | .dependsOn d => dependsPhrase.tree d
    | .visible d => visiblePhrase.tree d
  conflicts _ := []

/-! ## What readers do with the parts of lines -/

open Reader

variable {n : Nat}

theorem begins_keyword (k : Keyword) :
    (Phrase.token (fun pos => ⟨.keyword k, pos⟩) fun _ => ()).Begins (· == .keyword k) :=
  Phrase.begins_token fun _ => by simp

/-- A node that starts with a keyword is read if the rest of it is. -/
theorem reads_keyworded {D α : Type} {follow : Token → Bool} (word : Keyword) (c : Construct)
    {p : Reader (Span → α)} {P : Phrase D (Span → α)} (h : Reads n p P follow) :
    Reads n (labelled c (withSpan (do Reader.keyword word; p)))
      ((Phrase.token (fun pos => ⟨.keyword word, pos⟩) fun _ => ()).seq fun _ => P).spanned follow :=
  .labelled (.withSpan ((Reads.keyword word).andThen fun _ => h) ((begins_keyword word).seq _)) c

theorem begins_condition : Condition.phrase.Begins (· == .keyword .ifCondition) :=
  fun _ => ⟨_, _, rfl, rfl⟩

theorem reads_condition : Reads n Grammar.condition Condition.phrase.option afterCondition := by
  have hif : Reads n (do Reader.keyword .ifCondition; Grammar.expression) Condition.phrase afterExpr :=
    ((Reads.keyword _).andThen fun _ => reads_expression).reshape
      (fun d => ⟨d.1, d.2⟩) (fun d => ⟨(d.pos, d.expr), rfl⟩) (fun _ => rfl) (fun _ => rfl)
      fun _ => rfl
  refine hif.optional begins_condition fun t ht => ?_
  simpa [afterCondition] using ht

/-- What follows an optional condition may follow the expression before it. -/
theorem leads_condition {α : Type} (f : Option Expr → α) :
    (Condition.phrase.option.map f).Leads afterCondition afterExpr := by
  refine Phrase.Begins.leads_option begins_condition (fun t ht => ?_) fun t ht => ?_
  · obtain rfl : t = .keyword .ifCondition := by simpa using ht
    rfl
  · exact ((Bool.and_eq_true _ _).mp ht).1

mutual

/-- No operand is a tristate literal `y` or `n`. -/
theorem Unary.boolLiteral_tree : ∀ d : Unary, d.tree.boolLiteral = d.tree
  | .not _ _ => rfl
  | .leaf (.literal l _) => by cases l <;> rfl
  | .leaf (.symbol _) => rfl
  | .parens _ inner _ => inner.boolLiteral_tree

theorem Comparison.boolLiteral_tree : ∀ d : Comparison, d.tree.boolLiteral = d.tree
  | .single operand => operand.boolLiteral_tree
  | .compare .. => rfl

theorem Conjunction.boolLiteral_tree : ∀ d : Conjunction, d.tree.boolLiteral = d.tree
  | .single operand => operand.boolLiteral_tree
  | .and .. => rfl

theorem Disjunction.boolLiteral_tree : ∀ d : Disjunction, d.tree.boolLiteral = d.tree
  | .single operand => operand.boolLiteral_tree
  | .or .. => rfl

end

/-! ## What readers do with lines -/

/-- Whether a token is the keyword of a type. -/
def startsType : Token → Bool
  | .keyword .bool | .keyword .tristate | .keyword .int | .keyword .hex | .keyword .string => true
  | _ => false

/-- Whether a token is a help block. -/
def startsHelp : Token → Bool
  | .help _ => true
  | _ => false

theorem afterCondition_of_afterLine (t : Token) (h : afterLine t = true) : afterCondition t = true :=
  ((Bool.and_eq_true _ _).mp h).1

theorem afterExpr_of_afterLine (t : Token) (h : afterLine t = true) : afterExpr t = true :=
  ((Bool.and_eq_true _ _).mp (afterCondition_of_afterLine t h)).1

theorem begins_type : typePhrase.Begins startsType :=
  fun ⟨kind, _, _⟩ => ⟨_, _, rfl, by cases kind <;> rfl⟩

theorem reads_shown : Reads n
    (do let text ← Grammar.string; let cond ← Grammar.condition; return (text, cond)) shownPhrase
    afterCondition :=
  reads_string.andThen fun _ => reads_condition.andReturn _

/-- The token of a type. -/
def typeToken (d : SymbolType × Span) : Lexed :=
  ⟨.keyword (typeKeyword d.1), d.2⟩

theorem begins_typeToken {α : Type} (tree : SymbolType × Span → α) :
    (Phrase.token typeToken tree).Begins startsType :=
  Phrase.begins_token fun ⟨kind, _⟩ => by cases kind <;> rfl

/-- The keyword of a type is one of five. -/
theorem reads_typeKeyword : Reads n
    (oneOf fun
      | .keyword .bool => some SymbolType.bool
      | .keyword .tristate => some .tristate
      | .keyword .int => some .int
      | .keyword .hex => some .hex
      | .keyword .string => some .string
      | _ => none) (Phrase.token typeToken Prod.fst) anyToken := by
  refine Reads.oneOf _ typeToken Prod.fst ?_ ?_ ?_
  · rintro ⟨k, pos⟩ ⟨k', pos'⟩ h
    cases k <;> cases k' <;> simp_all [typeToken, typeKeyword]
  · rintro ⟨k, pos⟩
    cases k <;> rfl
  · rintro ⟨t, pos⟩ kind h
    split at h <;> cases h
    · exact ⟨(.bool, pos), by simp_all [typeToken, typeKeyword], rfl⟩
    · exact ⟨(.tristate, pos), by simp_all [typeToken, typeKeyword], rfl⟩
    · exact ⟨(.int, pos), by simp_all [typeToken, typeKeyword], rfl⟩
    · exact ⟨(.hex, pos), by simp_all [typeToken, typeKeyword], rfl⟩
    · exact ⟨(.string, pos), by simp_all [typeToken, typeKeyword], rfl⟩

theorem reads_type : Reads n Grammar.typeDecl typePhrase afterLine := by
  have hshown : Reads n (Reader.optional _) shownPhrase.option afterLine :=
    reads_shown.optional ((begins_string id).seq _) fun t ht => by simpa [afterLine] using ht
  refine Reads.labelled (.reshape (.withSpan (reads_typeKeyword.andThen fun _ => hshown.andReturn _)
    ((begins_typeToken _).seq _))
    (fun d => ⟨d.1.1, d.1.2, d.2⟩) (fun d => ⟨((d.kind, d.pos), d.shown), rfl⟩) (fun _ => rfl)
    ?_ ?_) _
  · rintro ⟨⟨k, pos⟩, _ | ⟨text, cond⟩⟩ <;> rfl
  · rintro ⟨⟨k, pos⟩, _ | ⟨text, _ | cond⟩⟩ <;> rfl

theorem reads_prompt : Reads n Grammar.prompt promptPhrase afterLine := by
  refine ((reads_keyworded .prompt .prompt
    (reads_string.andThen fun _ => reads_condition.andReturn _)).reshape
    (fun d => ⟨d.1, d.2.1, d.2.2⟩) (fun d => ⟨(d.pos, d.text, d.condition), rfl⟩) (fun _ => rfl)
    (fun _ => rfl) ?_).of_follow afterCondition_of_afterLine
  rintro ⟨pos, text, _ | cond⟩ <;> rfl

theorem reads_value (word : Keyword) {literal stored : Expr → Expr}
    (h : ∀ d : Disjunction, literal d.tree = stored d.tree) :
    Reads n (Grammar.defaultValue word literal) (valuePhrase word stored) afterLine := by
  refine (((Reads.keyword word).andThen fun _ => reads_expression.bind
    (fun _ => reads_condition.andReturn _) fun _ => leads_condition _).reshape
    (fun d => ⟨d.1, d.2.1, d.2.2⟩) (fun d => ⟨(d.pos, d.value, d.condition), rfl⟩) ?_ ?_
    ?_).of_follow afterCondition_of_afterLine
  · exact fun _ => rfl
  · intro d
    -- The reader and the phrase may store the value differently, but not that of a derivation.
    show DefaultValue.mk (stored d.2.1.tree) _ = DefaultValue.mk (literal d.2.1.tree) _
    rw [h]
  · rintro ⟨pos, value, _ | cond⟩ <;> rfl

theorem begins_value (word : Keyword) (stored : Expr → Expr) :
    (valuePhrase word stored).Begins (· == .keyword word) :=
  fun _ => ⟨_, _, rfl, by simp⟩

theorem reads_default : Reads n Grammar.default defaultPhrase afterLine :=
  (((reads_value .default fun _ => rfl).andReturn _).withSpan ((begins_value _ _).map _)).labelled _

theorem reads_defBool : Reads n Grammar.defBool defBoolPhrase afterLine :=
  (((reads_value .defBool Disjunction.boolLiteral_tree).andReturn _).withSpan
    ((begins_value _ id).map _)).labelled _

theorem reads_defTristate : Reads n Grammar.defTristate defTristatePhrase afterLine :=
  (((reads_value .defTristate fun _ => rfl).andReturn _).withSpan ((begins_value _ _).map _)).labelled _

theorem reads_depends : Reads n Grammar.dependsOn dependsPhrase afterLine := by
  refine ((reads_keyworded .depends .dependsOn
    ((Reads.keyword .on).andThen fun _ => reads_expression.andReturn _)).reshape
    (fun d => ⟨d.1, d.2.1, d.2.2⟩) (fun d => ⟨(d.pos, d.onPos, d.condition), rfl⟩) (fun _ => rfl)
    (fun _ => rfl) fun _ => rfl).of_follow afterExpr_of_afterLine

theorem reads_visible : Reads n Grammar.visibleIf visiblePhrase afterLine := by
  refine ((reads_keyworded .visible .visibleIf
    ((Reads.keyword .ifCondition).andThen fun _ => reads_expression.andReturn _)).reshape
    (fun d => ⟨d.1, d.2.1, d.2.2⟩) (fun d => ⟨(d.pos, d.ifPos, d.condition), rfl⟩) (fun _ => rfl)
    (fun _ => rfl) fun _ => rfl).of_follow afterExpr_of_afterLine

theorem reads_reference (word : Keyword) :
    Reads n (Grammar.reference word) (referencePhrase word) afterLine := by
  refine (((Reads.keyword word).andThen fun _ => reads_symbol.andThen fun _ =>
    reads_condition.andReturn _).reshape
    (fun d => ⟨d.1, d.2.1, d.2.2⟩) (fun d => ⟨(d.pos, d.target, d.condition), rfl⟩) (fun _ => rfl)
    (fun _ => rfl) ?_).of_follow afterCondition_of_afterLine
  rintro ⟨pos, target, _ | cond⟩ <;> rfl

theorem begins_reference (word : Keyword) :
    (referencePhrase word).Begins (· == .keyword word) :=
  fun _ => ⟨_, _, rfl, by simp⟩

theorem reads_select : Reads n Grammar.select selectPhrase afterLine :=
  (((reads_reference .select).andReturn _).withSpan ((begins_reference _).map _)).labelled _

theorem reads_imply : Reads n Grammar.imply implyPhrase afterLine :=
  (((reads_reference .imply).andReturn _).withSpan ((begins_reference _).map _)).labelled _

theorem reads_defaultMember : Reads n Grammar.defaultMember defaultMemberPhrase afterLine :=
  (((reads_reference .default).andReturn _).withSpan ((begins_reference _).map _)).labelled _

theorem reads_range : Reads n Grammar.range rangePhrase afterLine := by
  refine ((reads_keyworded .range .range (reads_leaf.andThen fun _ => reads_leaf.andThen fun _ =>
    reads_condition.andReturn _)).reshape
    (fun d => ⟨d.1, d.2.1, d.2.2.1, d.2.2.2⟩) (fun d => ⟨(d.pos, d.low, d.high, d.condition), rfl⟩)
    (fun _ => rfl) (fun _ => rfl) ?_).of_follow afterCondition_of_afterLine
  rintro ⟨pos, low, high, _ | cond⟩ <;> rfl

theorem begins_help {α : Type} (tree : HelpLine → α) :
    (Phrase.token helpToken tree).Begins startsHelp :=
  Phrase.begins_token fun _ => rfl

theorem reads_help : Reads n Grammar.help helpPhrase afterLine := by
  refine (Reads.labelled (.reshape (.withSpan (.oneOf _ helpToken (fun d => Property.help d.body)
    ?_ ?_ ?_) (begins_help _))
    id Function.surjective_id (fun _ => rfl) (fun _ => rfl) fun _ => rfl) _).of_follow fun _ _ => rfl
  · rintro ⟨body, pos⟩ ⟨body', pos'⟩ h
    simpa [helpToken] using h
  · exact fun _ => rfl
  · rintro ⟨t, pos⟩ f hf
    cases t <;> simp at hf
    exact ⟨⟨_, pos⟩, rfl, hf⟩

theorem reads_equals :
    Reads n (do Reader.mark .equal; Grammar.string) equalsPhrase anyToken :=
  (Reads.mark .equal).andThen fun _ => reads_string

theorem optionToken_injective : Function.Injective optionToken := by
  intro o o' h
  cases o <;> cases o' <;> simp_all [optionToken]

/-- The name of an option with its place. -/
def optionNameToken (d : OptionName × Span) : Lexed :=
  ⟨optionToken d.1, d.2⟩

/-- The name of an option is one of four keywords or a name. -/
theorem reads_optionName : Reads n
    (oneOf fun
      | .keyword .defconfigList => some OptionName.defconfigList
      | .keyword .modules => some .modules
      | .keyword .env => some .env
      | .keyword .allnoconfigY => some .allnoconfigY
      | .ident name => some (.other name)
      | _ => none) (Phrase.token optionNameToken Prod.fst) anyToken := by
  refine Reads.oneOf _ optionNameToken Prod.fst ?_ ?_ ?_
  · rintro ⟨o, pos⟩ ⟨o', pos'⟩ h
    obtain ⟨ho, hpos⟩ := Lexed.mk.inj h
    exact Prod.ext (optionToken_injective ho) hpos
  · rintro ⟨o, pos⟩
    cases o <;> rfl
  · rintro ⟨t, pos⟩ o h
    split at h <;> cases h
    · exact ⟨(.defconfigList, pos), by simp_all [optionNameToken, optionToken], rfl⟩
    · exact ⟨(.modules, pos), by simp_all [optionNameToken, optionToken], rfl⟩
    · exact ⟨(.env, pos), by simp_all [optionNameToken, optionToken], rfl⟩
    · exact ⟨(.allnoconfigY, pos), by simp_all [optionNameToken, optionToken], rfl⟩
    · rename_i name _
      exact ⟨(.other name, pos), by simp_all [optionNameToken, optionToken], rfl⟩

theorem reads_option : Reads n Grammar.option optionPhrase afterLine := by
  have hvalue : Reads n (Reader.optional (do Reader.mark .equal; Grammar.string))
      equalsPhrase.option afterLine := by
    refine reads_equals.optional ((begins_mark .equal).seq _) fun t ht => ⟨rfl, ?_⟩
    refine beq_false_of_ne ?_
    rintro rfl
    exact absurd (afterExpr_of_afterLine _ ht) (by decide)
  refine (reads_keyworded .option .option (reads_optionName.andThen fun _ =>
      hvalue.andReturn _)).reshape (fun d => ⟨d.1, d.2.1.1, d.2.1.2, d.2.2⟩)
    (fun d => ⟨(d.pos, (d.name, d.namePos), d.value), rfl⟩) (fun _ => rfl) ?_ ?_
  · rintro ⟨pos, o, _ | ⟨pos', s⟩⟩ <;> rfl
  · rintro ⟨pos, o, _ | ⟨pos', s⟩⟩ <;> rfl

/-! ## Which line a token starts -/

theorem begins_prompt : promptPhrase.Begins (· == .keyword .prompt) := fun _ => ⟨_, _, rfl, rfl⟩

theorem begins_depends : dependsPhrase.Begins (· == .keyword .depends) := fun _ => ⟨_, _, rfl, rfl⟩

theorem begins_visible : visiblePhrase.Begins (· == .keyword .visible) := fun _ => ⟨_, _, rfl, rfl⟩

theorem begins_range : rangePhrase.Begins (· == .keyword .range) := fun _ => ⟨_, _, rfl, rfl⟩

theorem begins_option : optionPhrase.Begins (· == .keyword .option) := fun _ => ⟨_, _, rfl, rfl⟩

theorem begins_default : defaultPhrase.Begins (· == .keyword .default) :=
  ((begins_value _ _).map _).spanned

theorem begins_defBool : defBoolPhrase.Begins (· == .keyword .defBool) :=
  ((begins_value _ id).map _).spanned

theorem begins_defTristate : defTristatePhrase.Begins (· == .keyword .defTristate) :=
  ((begins_value _ _).map _).spanned

theorem begins_select : selectPhrase.Begins (· == .keyword .select) :=
  ((begins_reference _).map _).spanned

theorem begins_imply : implyPhrase.Begins (· == .keyword .imply) :=
  ((begins_reference _).map _).spanned

theorem begins_defaultMember : defaultMemberPhrase.Begins (· == .keyword .default) :=
  ((begins_reference _).map _).spanned

/-- A token that starts no type is apart from those that do. -/
theorem apart_type {start : Token → Bool} (h : ∀ k, start (.keyword (typeKeyword k)) = false) :
    Apart startsType start := by
  intro t ht
  have hne : ∀ k, t ≠ .keyword (typeKeyword k) := by
    rintro k rfl
    simp [h k] at ht
  unfold startsType
  split
  · exact absurd rfl (hne .bool)
  · exact absurd rfl (hne .tristate)
  · exact absurd rfl (hne .int)
  · exact absurd rfl (hne .hex)
  · exact absurd rfl (hne .string)
  · rfl

/-- Whether a token starts a line of an entry. -/
def startsEntryLine (t : Token) : Bool :=
  startsType t || (t == .keyword .prompt || (t == .keyword .default || (t == .keyword .defBool ||
    (t == .keyword .defTristate || (t == .keyword .depends || (t == .keyword .select ||
      (t == .keyword .imply || (t == .keyword .range || (startsHelp t || t == .keyword .option)))))))))

/-- Whether a token starts a line of a choice. -/
def startsChoiceLine (t : Token) : Bool :=
  startsType t || (t == .keyword .prompt || (t == .keyword .default || (t == .keyword .depends ||
    (startsHelp t || t == .keyword .option))))

/-- Whether a token starts a line of a menu. -/
def startsMenuLine (t : Token) : Bool :=
  t == .keyword .depends || t == .keyword .visible

/-- The lines of entries are read wherever no line goes on. -/
theorem reads_entryLine :
    ReadsFrom n Grammar.entryProperty EntryLine.phrase startsEntryLine afterLine := by
  refine ReadsFrom.reshape
    (.first (apart_type ?_) ⟨reads_type, begins_type⟩ <|
      .first (apart_eq rfl) ⟨reads_prompt, begins_prompt⟩ <|
      .first (apart_eq rfl) ⟨reads_default, begins_default⟩ <|
      .first (apart_eq rfl) ⟨reads_defBool, begins_defBool⟩ <|
      .first (apart_eq rfl) ⟨reads_defTristate, begins_defTristate⟩ <|
      .first (apart_eq rfl) ⟨reads_depends, begins_depends⟩ <|
      .first (apart_eq rfl) ⟨reads_select, begins_select⟩ <|
      .first (apart_eq rfl) ⟨reads_imply, begins_imply⟩ <|
      .first (apart_eq rfl) ⟨reads_range, begins_range⟩ <|
      .first (apart_of_eq rfl) ⟨reads_help, begins_help _⟩ ⟨reads_option, begins_option⟩)
    (Sum.elim .type <| Sum.elim .prompt <| Sum.elim .default <| Sum.elim .defBool <|
      Sum.elim .defTristate <| Sum.elim .dependsOn <| Sum.elim .select <| Sum.elim .imply <|
      Sum.elim .range <| Sum.elim .help .option) ?_ ?_ ?_ ?_
  · intro k
    cases k <;> rfl
  · intro line
    cases line with
    | type d => exact ⟨.inl d, rfl⟩
    | prompt d => exact ⟨.inr (.inl d), rfl⟩
    | default d => exact ⟨.inr (.inr (.inl d)), rfl⟩
    | defBool d => exact ⟨.inr (.inr (.inr (.inl d))), rfl⟩
    | defTristate d => exact ⟨.inr (.inr (.inr (.inr (.inl d)))), rfl⟩
    | dependsOn d => exact ⟨.inr (.inr (.inr (.inr (.inr (.inl d))))), rfl⟩
    | select d => exact ⟨.inr (.inr (.inr (.inr (.inr (.inr (.inl d)))))), rfl⟩
    | imply d => exact ⟨.inr (.inr (.inr (.inr (.inr (.inr (.inr (.inl d))))))), rfl⟩
    | range d => exact ⟨.inr (.inr (.inr (.inr (.inr (.inr (.inr (.inr (.inl d)))))))), rfl⟩
    | help d => exact ⟨.inr (.inr (.inr (.inr (.inr (.inr (.inr (.inr (.inr (.inl d))))))))), rfl⟩
    | option d => exact ⟨.inr (.inr (.inr (.inr (.inr (.inr (.inr (.inr (.inr (.inr d))))))))), rfl⟩
  · rintro (d | d | d | d | d | d | d | d | d | d | d) <;> rfl
  · rintro (d | d | d | d | d | d | d | d | d | d | d) <;> rfl
  · rintro (d | d | d | d | d | d | d | d | d | d | d) <;> rfl

/-- The lines of choices are read wherever no line goes on. -/
theorem reads_choiceLine :
    ReadsFrom n Grammar.choiceProperty ChoiceLine.phrase startsChoiceLine afterLine := by
  refine ReadsFrom.reshape
    (.first (apart_type ?_) ⟨reads_type, begins_type⟩ <|
      .first (apart_eq rfl) ⟨reads_prompt, begins_prompt⟩ <|
      .first (apart_eq rfl) ⟨reads_defaultMember, begins_defaultMember⟩ <|
      .first (apart_eq rfl) ⟨reads_depends, begins_depends⟩ <|
      .first (apart_of_eq rfl) ⟨reads_help, begins_help _⟩ ⟨reads_option, begins_option⟩)
    (Sum.elim .type <| Sum.elim .prompt <| Sum.elim .defaultMember <| Sum.elim .dependsOn <|
      Sum.elim .help .option) ?_ ?_ ?_ ?_
  · intro k
    cases k <;> rfl
  · intro line
    cases line with
    | type d => exact ⟨.inl d, rfl⟩
    | prompt d => exact ⟨.inr (.inl d), rfl⟩
    | defaultMember d => exact ⟨.inr (.inr (.inl d)), rfl⟩
    | dependsOn d => exact ⟨.inr (.inr (.inr (.inl d))), rfl⟩
    | help d => exact ⟨.inr (.inr (.inr (.inr (.inl d)))), rfl⟩
    | option d => exact ⟨.inr (.inr (.inr (.inr (.inr d)))), rfl⟩
  · rintro (d | d | d | d | d | d) <;> rfl
  · rintro (d | d | d | d | d | d) <;> rfl
  · rintro (d | d | d | d | d | d) <;> rfl

/-- The lines of menus are read wherever no line goes on. -/
theorem reads_menuLine :
    ReadsFrom n Grammar.menuProperty MenuLine.phrase startsMenuLine afterLine := by
  refine ReadsFrom.reshape
    (.first (apart_of_eq rfl) ⟨reads_depends, begins_depends⟩ ⟨reads_visible, begins_visible⟩)
    (Sum.elim .dependsOn .visible) ?_ ?_ ?_ ?_
  · intro line
    cases line with
    | dependsOn d => exact ⟨.inl d, rfl⟩
    | visible d => exact ⟨.inr d, rfl⟩
  · rintro (d | d) <;> rfl
  · rintro (d | d) <;> rfl
  · rintro (d | d) <;> rfl

end KconfigLang.Derivation
