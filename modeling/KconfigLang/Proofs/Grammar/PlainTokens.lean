import KconfigLang.Proofs.Grammar.StmtDerivation

/-!
# Plain tokens

Lines are made of tokens that begin and end no statement and that declare no type, apart from the token that
declares the type in a line with a type. So splicing leaves the tokens of lines alone, a line opens and closes no
block, and where an entry declares its types is seen from the first tokens of its lines.

- `isPlain`: the tokens that begin no entry, no choice and no inclusion and declare no type.
- `isInner`: those of them that begin and end no statement at all.
- `Disjunction.inner`: expressions are made of them.
- `EntryLine.tokens_cases` and `ChoiceLine.tokens_cases`: so are lines, or they begin with their type.
-/

namespace KconfigLang.Derivation

/-- Whether a token begins no entry, no choice and no inclusion and declares no type. -/
def isPlain : Token → Bool
  | .keyword .config | .keyword .menuconfig | .keyword .choice => false
  | .keyword .source | .keyword .rsource | .keyword .osource | .keyword .orsource => false
  | .keyword .bool | .keyword .tristate | .keyword .int | .keyword .hex | .keyword .string => false
  | _ => true

/-- Whether a token stands within a line: it begins and ends no statement and declares no type. -/
def isInner : Token → Bool
  | .keyword .mainmenu | .keyword .comment | .keyword .menu | .keyword .ifBlock => false
  | .keyword .endmenu | .keyword .endchoice | .keyword .endif => false
  | t => isPlain t

theorem isPlain_of_isInner {t : Token} (h : isInner t = true) : isPlain t = true := by
  unfold isInner at h
  split at h
  all_goals first | exact absurd h Bool.false_ne_true | exact h

theorem startsSource_of_isPlain {t : Token} (h : isPlain t = true) : startsSource t = false := by
  refine Bool.eq_false_iff.mpr fun hsource => ?_
  unfold startsSource at hsource
  split at hsource
  all_goals first | exact absurd h Bool.false_ne_true | exact absurd hsource Bool.false_ne_true

theorem startsType_of_isPlain {t : Token} (h : isPlain t = true) : startsType t = false := by
  refine Bool.eq_false_iff.mpr fun htype => ?_
  unfold startsType at htype
  split at htype
  all_goals first | exact absurd h Bool.false_ne_true | exact absurd htype Bool.false_ne_true

theorem startsSource_of_startsType {t : Token} (h : startsType t = true) : startsSource t = false := by
  unfold startsType at h
  split at h
  all_goals first | rfl | exact absurd h Bool.false_ne_true

/-- All tokens of a list are of some kind. -/
def AllTokens (kind : Token → Bool) (ts : List Lexed) : Prop :=
  ∀ t ∈ ts, kind t.token = true

/-- All tokens of a list are plain. -/
abbrev AllPlain : List Lexed → Prop :=
  AllTokens isPlain

/-- All tokens of a list stand within lines. -/
abbrev AllInner : List Lexed → Prop :=
  AllTokens isInner

section AllTokens

variable {kind : Token → Bool} {ts us : List Lexed}

theorem allTokens_nil : AllTokens kind [] :=
  List.forall_mem_nil _

theorem AllTokens.cons {t : Lexed} (hs : AllTokens kind ts) (h : kind t.token = true) :
    AllTokens kind (t :: ts) :=
  List.forall_mem_cons.mpr ⟨h, hs⟩

theorem AllTokens.append (h : AllTokens kind ts) (h' : AllTokens kind us) : AllTokens kind (ts ++ us) :=
  List.forall_mem_append.mpr ⟨h, h'⟩

theorem AllTokens.plain (h : AllInner ts) : AllPlain ts :=
  fun t ht => isPlain_of_isInner (h t ht)

theorem allTokens_option {D α : Type} {P : Phrase D α} (h : ∀ d, AllTokens kind (P.tokens d)) (d : Option D) :
    AllTokens kind (P.option.tokens d) := by
  cases d with
  | none => exact allTokens_nil
  | some d => exact h d

theorem allTokens_list {D α : Type} {P : Phrase D α} (h : ∀ d, AllTokens kind (P.tokens d)) (ds : List D) :
    AllTokens kind (P.list.tokens ds) := by
  intro t ht
  obtain ⟨d, -, ht⟩ := List.mem_flatMap.mp ht
  exact h d t ht

end AllTokens

/-! ## Expressions -/

theorem inner_leaf (d : Leaf) : isInner d.lexed.token = true := by
  rcases d with ⟨l, pos⟩ | id
  · cases l <;> rfl
  · rfl

mutual

theorem Unary.inner : ∀ d : Unary, AllInner d.tokens
  | .not _ operand => operand.inner.cons rfl
  | .leaf operand => allTokens_nil.cons (inner_leaf operand)
  | .parens _ inner _ => (inner.inner.append (allTokens_nil.cons rfl)).cons rfl

theorem Comparison.inner : ∀ d : Comparison, AllInner d.tokens
  | .single operand => operand.inner
  | .compare lhs _ _ rhs => lhs.inner.append (rhs.inner.cons rfl)

theorem Conjunction.inner : ∀ d : Conjunction, AllInner d.tokens
  | .single operand => operand.inner
  | .and lhs _ rhs => lhs.inner.append (rhs.inner.cons rfl)

theorem Disjunction.inner : ∀ d : Disjunction, AllInner d.tokens
  | .single operand => operand.inner
  | .or lhs _ rhs => lhs.inner.append (rhs.inner.cons rfl)

end

/-! ## Lines -/

theorem inner_condition (d : Option Condition) : AllInner (Condition.phrase.option.tokens d) :=
  allTokens_option (fun c => c.expr.inner.cons rfl) d

theorem inner_shown (d : Option (StringNode × Option Condition)) : AllInner (shownPhrase.option.tokens d) :=
  allTokens_option (fun s => (inner_condition s.2).cons rfl) d

theorem inner_prompt (d : PromptLine) : AllInner (promptPhrase.tokens d) :=
  ((inner_condition d.condition).cons rfl).cons rfl

theorem inner_value {word : Keyword} (h : isInner (.keyword word) = true) (stored : Expr → Expr)
    (d : ValueLine) : AllInner ((valuePhrase word stored).tokens d) :=
  (d.value.inner.append (inner_condition d.condition)).cons h

theorem inner_depends (d : DependsLine) : AllInner (dependsPhrase.tokens d) :=
  (d.condition.inner.cons rfl).cons rfl

theorem inner_visible (d : VisibleLine) : AllInner (visiblePhrase.tokens d) :=
  (d.condition.inner.cons rfl).cons rfl

theorem inner_reference {word : Keyword} (h : isInner (.keyword word) = true) (d : ReferenceLine) :
    AllInner ((referencePhrase word).tokens d) :=
  ((inner_condition d.condition).cons rfl).cons h

theorem inner_range (d : RangeLine) : AllInner (rangePhrase.tokens d) :=
  (((inner_condition d.condition).cons (inner_leaf d.high)).cons (inner_leaf d.low)).cons rfl

theorem inner_help (d : HelpLine) : AllInner (helpPhrase.tokens d) :=
  allTokens_nil.cons rfl

theorem inner_optionLine (d : OptionLine) : AllInner (optionPhrase.tokens d) := by
  obtain ⟨pos, name, namePos, value⟩ := d
  have hvalue : AllInner (equalsPhrase.option.tokens value) :=
    allTokens_option (fun _ => (allTokens_nil.cons rfl).cons rfl) value
  have hname : isInner (optionToken name) = true := by cases name <;> rfl
  exact (hvalue.cons hname).cons rfl

theorem MenuLine.inner (d : MenuLine) : AllInner (MenuLine.phrase.tokens d) := by
  cases d with
  | dependsOn d => exact inner_depends d
  | visible d => exact inner_visible d

theorem plain_comment (d : CommentLine) : AllPlain (commentPhrase.tokens d) :=
  ((allTokens_list inner_depends d.lines).plain.cons rfl).cons rfl

theorem plain_title (d : Option TitleLine) : AllPlain (titlePhrase.option.tokens d) :=
  allTokens_option (fun _ => (allTokens_nil.cons rfl).cons rfl) d

/-! ## Lines with types -/

/-- The first of some tokens, at the byte `start`, declares a type, and the others stand
within the line. -/
def IsTyped (ts : List Lexed) (start : Nat) : Prop :=
  ∃ t rest, ts = t :: rest ∧ startsType t.token = true ∧ t.span.start = start ∧ AllInner rest

theorem isTyped_type (d : TypeLine) : IsTyped (typePhrase.tokens d) d.pos.start := by
  refine ⟨_, _, rfl, ?_, rfl, inner_shown d.shown⟩
  cases d.kind <;> rfl

/-- A line of an entry declares no type, or its first token declares the type. -/
theorem EntryLine.tokens_cases (d : EntryLine) :
    Grammar.declaredType? (EntryLine.phrase.tree d) = none ∧ AllInner (EntryLine.phrase.tokens d) ∨
      ∃ decl, Grammar.declaredType? (EntryLine.phrase.tree d) = some decl ∧
        IsTyped (EntryLine.phrase.tokens d) decl.span.start := by
  cases d with
  | type d => exact .inr ⟨_, rfl, isTyped_type d⟩
  | prompt d => exact .inl ⟨rfl, inner_prompt d⟩
  | default d => exact .inl ⟨rfl, inner_value rfl Expr.tristateLiteral d⟩
  | defBool d => exact .inl ⟨rfl, inner_value rfl id d⟩
  | defTristate d => exact .inl ⟨rfl, inner_value rfl Expr.tristateLiteral d⟩
  | dependsOn d => exact .inl ⟨rfl, inner_depends d⟩
  | select d | imply d => exact .inl ⟨rfl, inner_reference rfl d⟩
  | range d => exact .inl ⟨rfl, inner_range d⟩
  | help d => exact .inl ⟨rfl, inner_help d⟩
  | option d => exact .inl ⟨rfl, inner_optionLine d⟩

theorem ChoiceLine.tokens_cases (d : ChoiceLine) :
    AllInner (ChoiceLine.phrase.tokens d) ∨ ∃ start, IsTyped (ChoiceLine.phrase.tokens d) start := by
  cases d with
  | type d => exact .inr ⟨_, isTyped_type d⟩
  | prompt d => exact .inl (inner_prompt d)
  | defaultMember d => exact .inl (inner_reference rfl d)
  | dependsOn d => exact .inl (inner_depends d)
  | help d => exact .inl (inner_help d)
  | option d => exact .inl (inner_optionLine d)

end KconfigLang.Derivation
