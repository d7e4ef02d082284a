import KconfigLang.Tree.Stmt

/-!
# Trees without positions

What a tree says, apart from where its text stands: every span is replaced by the same one.

- `Expr.erase`, `Property.erase` and `Stmt.erase`: the trees without their spans.
- `Matching`: two trees that say the same.
-/

namespace KconfigLang

/-! ## Expressions -/

/-- The span that stands for every span. -/
def Span.blank : Span :=
  ⟨.root, 0, 0, 0, 0⟩

/-- A symbol name without its span. -/
def Ident.erase (id : Ident) : Ident :=
  { id with span := .blank }

/-- A string without its span. -/
def StringNode.erase (s : StringNode) : StringNode :=
  { s with span := .blank }

/-- An expression without its spans. -/
def Expr.erase : Expr → Expr
  | .symbol id => .symbol id.erase
  | .bool value _ => .bool value .blank
  | .tristate value _ => .tristate value .blank
  | .int value _ => .int value .blank
  | .hex value _ => .hex value .blank
  | .string lit => .string lit.erase
  | .not operand _ => .not operand.erase .blank
  | .binary lhs op rhs _ => .binary lhs.erase op rhs.erase .blank

@[simp] theorem Expr.erase_join (lhs : Expr) (op : BinaryOp) (rhs : Expr) :
    (lhs.join op rhs).erase = .binary lhs.erase op rhs.erase .blank :=
  rfl

/-! ## Properties and statements -/

/-- A type without its spans. -/
def TypeDecl.erase (d : TypeDecl) : TypeDecl :=
  ⟨d.kind, d.prompt.map StringNode.erase, d.condition.map Expr.erase, .blank⟩

/-- A value without its spans. -/
def DefaultValue.erase (v : DefaultValue) : DefaultValue :=
  ⟨v.value.erase, v.condition.map Expr.erase, .blank⟩

/-- A reference without its spans. -/
def Reference.erase (r : Reference) : Reference :=
  ⟨r.symbol.erase, r.condition.map Expr.erase, .blank⟩

/-- A property without its spans. -/
def Property.erase : Property → Property
  | .type d => .type d.erase
  | .prompt text condition _ => .prompt text.erase (condition.map Expr.erase) Span.blank
  | .default v => .default v.erase
  | .defBool v => .defBool v.erase
  | .defTristate v => .defTristate v.erase
  | .dependsOn condition _ => .dependsOn condition.erase Span.blank
  | .select r => .select r.erase
  | .imply r => .imply r.erase
  | .range low high condition _ =>
    .range low.erase high.erase (condition.map Expr.erase) Span.blank
  | .visible condition _ => .visible condition.erase Span.blank
  | .help body _ => .help body Span.blank
  | .option name value _ => .option name (value.map StringNode.erase) Span.blank
  | .defaultMember r => .defaultMember r.erase

/-- An entry without its spans. -/
def Config.erase (c : Config) : Config :=
  ⟨c.symbol.erase, c.properties.map Property.erase, .blank⟩

/-- A choice without its spans. -/
def Choice.erase (c : Choice) : Choice :=
  ⟨c.properties.map Property.erase, c.members.map Config.erase, .blank⟩

/-- The head of a menu without its spans. -/
def Menu.erase (m : Menu) : Menu :=
  ⟨m.title.erase, m.properties.map Property.erase, .blank⟩

/-- An inclusion without its spans. -/
def Source.erase (s : Source) : Source :=
  ⟨s.kind, s.path.erase, .blank⟩

/-- A comment without its spans. -/
def Comment.erase (c : Comment) : Comment :=
  ⟨c.text.erase, c.properties.map Property.erase, .blank⟩

/-- A title without its spans. -/
def MainMenu.erase (m : MainMenu) : MainMenu :=
  ⟨m.title.erase, .blank⟩

namespace Stmt

mutual

/-- A statement without its spans. -/
def erase : Stmt → Stmt
  | config c => config c.erase
  | menuconfig c => menuconfig c.erase
  | choice c => choice c.erase
  | menu m body => menu m.erase (eraseAll body)
  | ifBlock condition body _ => ifBlock condition.erase (eraseAll body) .blank
  | source s => source s.erase
  | comment c => comment c.erase

/-- The statements of a block without their spans. -/
def eraseAll : List Stmt → List Stmt
  | [] => []
  | s :: ss => erase s :: eraseAll ss

end

theorem eraseAll_eq_map (ss : List Stmt) : eraseAll ss = ss.map erase := by
  induction ss with
  | nil => rfl
  | cons s ss ih => rw [eraseAll, ih, List.map_cons]

theorem eraseAll_append (ss ts : List Stmt) : eraseAll (ss ++ ts) = eraseAll ss ++ eraseAll ts := by
  simp only [eraseAll_eq_map, List.map_append]

mutual

theorem walk_erase : ∀ s : Stmt, walk (erase s) = (walk s).map erase
  | menu _ body => congrArg (List.cons _) (walkAll_eraseAll body)
  | ifBlock _ body _ => congrArg (List.cons _) (walkAll_eraseAll body)
  | config _ | menuconfig _ | choice _ | source _ | comment _ => rfl

theorem walkAll_eraseAll : ∀ block : List Stmt, walkAll (eraseAll block) = (walkAll block).map erase
  | [] => rfl
  | s :: ss => by
    rw [eraseAll, walkAll, walkAll, walk_erase s, walkAll_eraseAll ss, List.map_append]

end

/-- Blocks that say the same have the same inclusions. -/
theorem exists_source_of_eraseAll_eq {block block' : List Stmt} (h : eraseAll block = eraseAll block')
    {s : Source} (hs : source s ∈ walkAll block) :
    ∃ s', source s' ∈ walkAll block' ∧ s'.erase = s.erase := by
  have herased : erase (source s) ∈ walkAll (eraseAll block') := by
    rw [← h, walkAll_eraseAll]
    exact List.mem_map_of_mem hs
  rw [walkAll_eraseAll] at herased
  obtain ⟨t, ht, htree⟩ := List.mem_map.mp herased
  cases t with
  | source s' => exact ⟨s', ht, source.inj htree⟩
  | _ => exact nomatch htree

end Stmt

/-- The tree of a file without its spans, its number and its path. -/
def Root.erase (r : Root) : Root :=
  ⟨.root, none, r.mainMenu.map MainMenu.erase, Stmt.eraseAll r.statements⟩

/-! ## Trees that say the same -/

/-- Two trees that differ at most in what `erase` takes away. -/
def Matching {α β : Type} (erase : α → β) (a b : α) : Prop :=
  erase a = erase b

end KconfigLang
