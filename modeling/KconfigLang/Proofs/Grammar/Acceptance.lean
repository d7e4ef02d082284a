import KconfigLang.Grammar.Parse
import KconfigLang.Proofs.Grammar.StmtDerivation

/-!
# What is accepted

A text is accepted if its tokens are derivable, and its tree is that of the only derivation.

- `Reads.parse_eq_ok_iff`: what a reader that reads a phrase makes of a whole token list.
- `Config.DeclaresOnce`: the rule for types, which derivations do not know.
- `Stmt.StoresLiterals`: where a bare `y` or `n` is a tristate literal.
- `members_ne_nil_of_parse`: choices have members.
- `parse_eq_ok_iff_derivation`: files.
-/

namespace KconfigLang

/-! ## Whole token lists -/

/-- A reader accepts a token list if it takes all of it without conflicts. -/
theorem Reader.parse_eq_ok_iff_taken {α : Type} (p : Reader α) (loc : Locator) (ts : List Lexed)
    (v : α) : p.parse loc ts = .ok v ↔
      ∃ after : Place, after.rest = [] ∧ (p ⟨ts, 0, 0⟩).taken = some ⟨v, after, []⟩ := by
  cases htaken : (p ⟨ts, 0, 0⟩).taken with
  | none => simp [Reader.parse, htaken]
  | some t =>
    obtain ⟨value, after, conflicts⟩ := t
    cases conflicts with
    | cons c cs => simp [Reader.parse, htaken]
    | nil =>
      cases hrest : after.rest with
      | nil =>
        have hend : (Reader.endOfInput after).taken = some ⟨(), after, []⟩ := by
          simp [Reader.endOfInput, hrest, Reader.pure]
        simp [Reader.parse, htaken, hend, hrest]
      | cons u us =>
        have hend : (Reader.endOfInput after).taken = none := by
          simp [Reader.endOfInput, hrest, Reader.fail]
        -- The tokens that are left are an error; so is there no place at the end.
        simp only [Reader.parse, htaken, Option.map_some, Option.getD_some, hend, reduceCtorEq,
          Option.some.injEq, Taken.mk.injEq, false_iff, not_exists, not_and]
        rintro _ hnil - rfl
        simp [hrest] at hnil

/-- A text is accepted if it has tokens and they are. -/
theorem Reader.parseText_eq_ok_iff {α : Type} (p : Reader α) (file : FileId) (text : String) (v : α) :
    p.parseText file text = .ok v ↔ ∃ ts,
      tokenize (Locator.ofChars file text.toList) text.toList = .ok ts ∧
        p.parse (Locator.ofChars file text.toList) ts = .ok v := by
  unfold Reader.parseText
  cases htokens : tokenize (Locator.ofChars file text.toList) text.toList with
  | error e => simp [htokens]
  | ok ts =>
    simp only [htokens]
    cases hparse : p.parse (Locator.ofChars file text.toList) ts with
    | error e =>
      show Except.error (SyntaxError.parse e) = .ok v ↔ _
      simp [hparse]
    | ok w =>
      show Except.ok w = Except.ok v ↔ _
      simp [hparse]

namespace Reads

variable {D α : Type} {p : Reader α} {P : Phrase D α} {follow : Token → Bool}

/-- No two derivations of a phrase have the same tokens. -/
theorem unambiguous (h : ∀ n, Reads n p P follow) {d d' : D} (heq : P.tokens d = P.tokens d') :
    d = d' := by
  have heq' : P.tokens d ++ [] = P.tokens d' ++ [] := by rw [heq]
  exact (h _).unique (Nat.lt_succ_self _) heq' (precedes_nil follow) (precedes_nil follow)

/-- A reader makes of a whole token list what the derivation of the list stands for. -/
theorem parse_eq_ok_iff (h : ∀ n, Reads n p P follow) (loc : Locator) (ts : List Lexed) (v : α) :
    p.parse loc ts = .ok v ↔ ∃ d, P.tokens d = ts ∧ P.tree d = v ∧ P.conflicts d = [] := by
  rw [Reader.parse_eq_ok_iff_taken]
  -- `h` is used at a bound above the number of tokens, and the end may follow every derivation.
  constructor
  · rintro ⟨after, hafter, htaken⟩
    obtain ⟨d, rest, hd, ht⟩ := (h (ts.length + 1)).sound (Nat.lt_succ_self _) htaken
    obtain ⟨rfl, rfl, hconflicts⟩ := Taken.mk.inj ht
    obtain rfl : rest = [] := (Place.rest_past hd).symm.trans hafter
    exact ⟨d, by simpa using hd.symm, rfl, hconflicts.symm⟩
  · rintro ⟨d, rfl, rfl, hconflicts⟩
    have heq : (⟨P.tokens d, 0, 0⟩ : Place).rest = P.tokens d ++ [] := (List.append_nil _).symm
    refine ⟨_, Place.rest_past heq, ?_⟩
    rw [(h _).complete (Nat.lt_succ_self _) heq (precedes_nil follow), hconflicts]

theorem parseText_eq_ok_iff (h : ∀ n, Reads n p P follow) (file : FileId) (text : String) (v : α) :
    p.parseText file text = .ok v ↔ ∃ d,
      tokenize (Locator.ofChars file text.toList) text.toList = .ok (P.tokens d) ∧
        P.tree d = v ∧ P.conflicts d = [] := by
  simp only [Reader.parseText_eq_ok_iff, parse_eq_ok_iff h]
  constructor
  · rintro ⟨_, htokens, d, rfl, hd⟩
    exact ⟨d, htokens, hd⟩
  · rintro ⟨d, htokens, hd⟩
    exact ⟨_, htokens, d, rfl, hd⟩

end Reads

/-! ## The rule for types -/

/-- An entry declares its type at most once. -/
def Config.DeclaresOnce (c : Config) : Prop :=
  (c.properties.filterMap Grammar.declaredType?).length ≤ 1

instance (c : Config) : Decidable c.DeclaresOnce :=
  inferInstanceAs (Decidable (_ ≤ _))

theorem Config.declaresOnce_iff (c : Config) :
    c.DeclaresOnce ↔ Grammar.typeConflict? c.properties = none := by
  unfold DeclaresOnce Grammar.typeConflict?
  -- Only the first two declarations matter to either side.
  match c.properties.filterMap Grammar.declaredType? with
  | [] => simp
  | [_] => simp
  | _ :: _ :: _ => simp

namespace Derivation

theorem conflicts_entry (word : Keyword) (d : Entry) :
    (entryPhrase word).conflicts d = [] ↔ ((entryPhrase word).tree d).DeclaresOnce := by
  rw [Config.declaresOnce_iff]
  exact Option.toList_eq_nil_iff

mutual

/-- A derivation has no conflicts if its entries declare their types once. -/
theorem Statement.conflicts_eq_nil_iff : ∀ d : Statement,
    d.conflicts = [] ↔ ∀ c ∈ (Stmt.walk d.tree).flatMap Stmt.ownConfigs, c.DeclaresOnce
  | .config d => by simp [conflicts, tree, Stmt.walk, Stmt.ownConfigs, conflicts_entry]
  | .menuconfig d => by simp [conflicts, tree, Stmt.walk, Stmt.ownConfigs, conflicts_entry]
  | .choice d => by
    simp [conflicts, tree, Stmt.walk, Stmt.ownConfigs, choicePhrase, conflicts_entry]
  | .comment d => by simp [conflicts, tree, Stmt.walk, Stmt.ownConfigs]
  | .menu pos title lines body stop => by
    rw [conflicts, tree, Stmt.walk, List.flatMap_cons, conflictsAll_eq_nil_iff body]
    simp [Stmt.ownConfigs, configs]
  | .ifBlock pos cond body stop => by
    rw [conflicts, tree, Stmt.walk, List.flatMap_cons, conflictsAll_eq_nil_iff body]
    simp [Stmt.ownConfigs, configs]
  | .source d => by simp [conflicts, tree, Stmt.walk, Stmt.ownConfigs]

theorem Statement.conflictsAll_eq_nil_iff : ∀ ds : List Statement,
    conflictsAll ds = [] ↔ ∀ c ∈ configs (treeAll ds), c.DeclaresOnce
  | [] => by simp [conflictsAll, treeAll, configs, Stmt.walkAll]
  | d :: ds => by
    rw [conflictsAll, List.append_eq_nil_iff, conflicts_eq_nil_iff d, conflictsAll_eq_nil_iff ds]
    simp only [configs, treeAll, Stmt.walkAll, List.flatMap_append, List.mem_append, or_imp,
      forall_and]

end

end Derivation

/-! ## Where `y` and `n` are tristate literals -/

/-- No `y` or `n` in an expression is a tristate literal. -/
def Expr.IsBare : Expr → Prop
  | .tristate value _ => value = .module
  | .not operand _ => operand.IsBare
  | .binary lhs _ rhs _ => lhs.IsBare ∧ rhs.IsBare
  | .symbol _ | .bool .. | .int .. | .hex .. | .string _ => True

/-- A value as tristate positions store it: a `y` or `n` on its own is a tristate literal. -/
def Expr.IsStored (e : Expr) : Prop :=
  ∃ bare : Expr, bare.IsBare ∧ bare.tristateLiteral = e

/-- All of some expressions are bare. -/
def AllBare (es : List Expr) : Prop :=
  ∀ e ∈ es, e.IsBare

/-- In a property only the values of `default` and `def_tristate` lines are stored as tristate literals. -/
def Property.StoresLiterals : Property → Prop
  | default v | defTristate v => v.value.IsStored ∧ AllBare v.condition.toList
  | defBool v => AllBare (v.value :: v.condition.toList)
  | type d => AllBare d.condition.toList
  | prompt _ condition _ => AllBare condition.toList
  | dependsOn condition _ | visible condition _ => AllBare [condition]
  | select r | imply r | defaultMember r => AllBare r.condition.toList
  | range low high condition _ => AllBare (low :: high :: condition.toList)
  | help .. | option .. => True

/-- In a statement only the values of `default` and `def_tristate` lines are stored as tristate literals. -/
def Stmt.StoresLiterals : Stmt → Prop
  | .ifBlock condition _ _ => condition.IsBare
  | s => ∀ p ∈ s.properties ++ s.ownConfigs.flatMap Config.properties, p.StoresLiterals

namespace Derivation

theorem Leaf.isBare_tree (d : Leaf) : d.tree.IsBare := by
  rcases d with ⟨l, pos⟩ | id
  · cases l <;> trivial
  · trivial

mutual

/-- The literals of a derivation are bare. -/
theorem Unary.isBare_tree : ∀ d : Unary, d.tree.IsBare
  | .not _ operand => operand.isBare_tree
  | .leaf operand => operand.isBare_tree
  | .parens _ inner _ => inner.isBare_tree

theorem Comparison.isBare_tree : ∀ d : Comparison, d.tree.IsBare
  | .single operand => operand.isBare_tree
  | .compare lhs _ _ rhs => ⟨lhs.isBare_tree, rhs.isBare_tree⟩

theorem Conjunction.isBare_tree : ∀ d : Conjunction, d.tree.IsBare
  | .single operand => operand.isBare_tree
  | .and lhs _ rhs => ⟨lhs.isBare_tree, rhs.isBare_tree⟩

theorem Disjunction.isBare_tree : ∀ d : Disjunction, d.tree.IsBare
  | .single operand => operand.isBare_tree
  | .or lhs _ rhs => ⟨lhs.isBare_tree, rhs.isBare_tree⟩

end

theorem allBare_nil : AllBare [] :=
  List.forall_mem_nil _

theorem allBare_cons {e : Expr} {es : List Expr} (he : e.IsBare) (hes : AllBare es) :
    AllBare (e :: es) :=
  List.forall_mem_cons.mpr ⟨he, hes⟩

theorem allBare_condition (d : Option Condition) :
    AllBare (Condition.phrase.option.tree d).toList := by
  cases d with
  | none => exact allBare_nil
  | some c => exact allBare_cons c.expr.isBare_tree allBare_nil

theorem storesLiterals_type (d : TypeLine) : (typePhrase.tree d).StoresLiterals := by
  obtain ⟨kind, pos, _ | shown⟩ := d
  · exact allBare_nil
  · exact allBare_condition shown.2

theorem storesLiterals_depends (d : DependsLine) : (dependsPhrase.tree d).StoresLiterals :=
  allBare_cons d.condition.isBare_tree allBare_nil

theorem EntryLine.storesLiterals (d : EntryLine) : (EntryLine.phrase.tree d).StoresLiterals := by
  cases d with
  | type d => exact storesLiterals_type d
  | prompt d => exact allBare_condition d.condition
  | default d => exact ⟨⟨_, d.value.isBare_tree, rfl⟩, allBare_condition d.condition⟩
  | defBool d => exact allBare_cons d.value.isBare_tree (allBare_condition d.condition)
  | defTristate d => exact ⟨⟨_, d.value.isBare_tree, rfl⟩, allBare_condition d.condition⟩
  | dependsOn d => exact storesLiterals_depends d
  | select d => exact allBare_condition d.condition
  | imply d => exact allBare_condition d.condition
  | range d =>
    exact allBare_cons d.low.isBare_tree (allBare_cons d.high.isBare_tree
      (allBare_condition d.condition))
  | help d => trivial
  | option d => trivial

theorem ChoiceLine.storesLiterals (d : ChoiceLine) : (ChoiceLine.phrase.tree d).StoresLiterals := by
  cases d with
  | type d => exact storesLiterals_type d
  | prompt d => exact allBare_condition d.condition
  | defaultMember d => exact allBare_condition d.condition
  | dependsOn d => exact storesLiterals_depends d
  | help d => trivial
  | option d => trivial

theorem MenuLine.storesLiterals (d : MenuLine) : (MenuLine.phrase.tree d).StoresLiterals := by
  cases d with
  | dependsOn d => exact storesLiterals_depends d
  | visible d => exact allBare_cons d.condition.isBare_tree allBare_nil

theorem storesLiterals_entry (word : Keyword) (d : Entry) :
    ∀ p ∈ ((entryPhrase word).tree d).properties, p.StoresLiterals := by
  intro p hp
  obtain ⟨line, -, rfl⟩ := List.mem_map.mp hp
  exact line.storesLiterals

/-- The statement of a derivation stores its own literals as documented. -/
theorem Statement.storesLiterals (d : Statement) : d.tree.StoresLiterals := by
  cases d with
  | config d =>
    intro p hp
    refine storesLiterals_entry .config d p ?_
    simpa [Statement.tree, Stmt.properties, Stmt.ownConfigs] using hp
  | menuconfig d =>
    intro p hp
    refine storesLiterals_entry .menuconfig d p ?_
    simpa [Statement.tree, Stmt.properties, Stmt.ownConfigs] using hp
  | choice d =>
    intro p hp
    rcases List.mem_append.mp hp with hp | hp
    · obtain ⟨line, -, rfl⟩ := List.mem_map.mp hp
      exact line.storesLiterals
    · obtain ⟨c, hc, hp⟩ := List.mem_flatMap.mp hp
      obtain ⟨entry, -, rfl⟩ := List.mem_map.mp hc
      exact storesLiterals_entry .config entry p hp
  | comment d =>
    intro p hp
    obtain ⟨line, -, rfl⟩ := List.mem_map.mp ((List.mem_append.mp hp).resolve_right List.not_mem_nil)
    exact storesLiterals_depends line
  | menu pos title lines body stop =>
    intro p hp
    obtain ⟨line, -, rfl⟩ := List.mem_map.mp ((List.mem_append.mp hp).resolve_right List.not_mem_nil)
    exact line.storesLiterals
  | ifBlock pos cond body stop => exact cond.isBare_tree
  | source d => exact List.forall_mem_nil _

mutual

/-- So do the statements inside it. -/
theorem Statement.storesLiterals_walk : ∀ d : Statement, ∀ s ∈ Stmt.walk d.tree, s.StoresLiterals
  | .menu pos title lines body stop => List.forall_mem_cons.mpr
    ⟨(Statement.menu pos title lines body stop).storesLiterals, storesLiterals_walkAll body⟩
  | .ifBlock pos cond body stop => List.forall_mem_cons.mpr
    ⟨(Statement.ifBlock pos cond body stop).storesLiterals, storesLiterals_walkAll body⟩
  | .config d => List.forall_mem_singleton.mpr (Statement.config d).storesLiterals
  | .menuconfig d => List.forall_mem_singleton.mpr (Statement.menuconfig d).storesLiterals
  | .choice d => List.forall_mem_singleton.mpr (Statement.choice d).storesLiterals
  | .comment d => List.forall_mem_singleton.mpr (Statement.comment d).storesLiterals
  | .source d => List.forall_mem_singleton.mpr (Statement.source d).storesLiterals

theorem Statement.storesLiterals_walkAll : ∀ ds : List Statement,
    ∀ s ∈ Stmt.walkAll (treeAll ds), s.StoresLiterals
  | [] => List.forall_mem_nil _
  | d :: ds => List.forall_mem_append.mpr ⟨d.storesLiterals_walk, storesLiterals_walkAll ds⟩

end

/-! ## Choices -/

mutual

/-- The choices of a derivation have members. -/
theorem Statement.members_ne_nil :
    ∀ d : Statement, ∀ c, .choice c ∈ Stmt.walk d.tree → c.members ≠ []
  | .choice d, c, h => by
    -- A derivation has its first member apart from the others.
    obtain rfl : c = choicePhrase.tree d := by simpa [tree, Stmt.walk] using h
    exact List.cons_ne_nil _ _
  | .menu pos title lines body stop, c, h => by
    refine members_ne_nil_all body c ?_
    simpa [tree, Stmt.walk] using h
  | .ifBlock pos cond body stop, c, h => by
    refine members_ne_nil_all body c ?_
    simpa [tree, Stmt.walk] using h
  | .config _, _, h | .menuconfig _, _, h | .comment _, _, h | .source _, _, h => by
    simp [tree, Stmt.walk] at h

theorem Statement.members_ne_nil_all : ∀ ds : List Statement,
    ∀ c, .choice c ∈ Stmt.walkAll (treeAll ds) → c.members ≠ []
  | [], _, h => absurd h List.not_mem_nil
  | d :: ds, c, h => (List.mem_append.mp h).elim (d.members_ne_nil c) (members_ne_nil_all ds c)

end

end Derivation

/-! ## Files -/

open KconfigLang.Derivation

/-- A file is accepted if its tokens have a derivation without conflicts. -/
theorem parse_eq_ok_iff (file : FileId) (text : String) (root : Root) :
    parse file text = .ok root ↔ ∃ d,
      tokenize (Locator.ofChars file text.toList) text.toList = .ok ((File.phrase file).tokens d) ∧
        (File.phrase file).tree d = root ∧ (File.phrase file).conflicts d = [] :=
  Reads.parseText_eq_ok_iff (fun _ => reads_file file) file text root

theorem members_ne_nil_of_parse {file : FileId} {text : String} {root : Root}
    (h : parse file text = .ok root) (c : Choice) (hc : .choice c ∈ Stmt.walkAll root.statements) :
    c.members ≠ [] := by
  obtain ⟨d, -, rfl, -⟩ := (parse_eq_ok_iff file text root).mp h
  refine Statement.members_ne_nil_all d.statements c ?_
  rwa [Statement.treeAll_eq]

end KconfigLang
