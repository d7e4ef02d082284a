import KconfigLang.Inclusion.Error
import KconfigLang.Proofs.Token.Tokenize
import KconfigLang.Proofs.Tree.Erasure

/-!
# The spans of trees

Trees and errors whose spans are changed by a function, and the list of their spans.

- `Expr.mapSpan`, `Stmt.mapSpan`, `Root.mapSpan`, `ResolveError.mapSpan`: changes every span.
- `Root.inFile`: the same tree of another file.
- `Stmt.spans`: the spans of a statement, in the order of its parts.
- `Stmt.mapSpan_mapSpan`, `Stmt.erase_eq_mapSpan`, `Stmt.spans_mapSpan`: what changing the spans does to a tree
  whose spans were changed before, to a tree without positions, and to the list of spans.
-/

namespace KconfigLang

/-! ## Changing spans -/

section Change

variable (f : Span → Span)

/-- A symbol name with its span changed. -/
def Ident.mapSpan (id : Ident) : Ident :=
  { id with span := f id.span }

/-- A string with its span changed. -/
def StringNode.mapSpan (s : StringNode) : StringNode :=
  { s with span := f s.span }

/-- An expression with its spans changed. -/
def Expr.mapSpan : Expr → Expr
  | .symbol id => .symbol (id.mapSpan f)
  | .bool value s => .bool value (f s)
  | .tristate value s => .tristate value (f s)
  | .int value s => .int value (f s)
  | .hex value s => .hex value (f s)
  | .string lit => .string (lit.mapSpan f)
  | .not operand s => .not operand.mapSpan (f s)
  | .binary lhs op rhs s => .binary lhs.mapSpan op rhs.mapSpan (f s)

/-- A type with its spans changed. -/
def TypeDecl.mapSpan (d : TypeDecl) : TypeDecl :=
  ⟨d.kind, d.prompt.map (StringNode.mapSpan f), d.condition.map (Expr.mapSpan f), f d.span⟩

/-- A value with its spans changed. -/
def DefaultValue.mapSpan (v : DefaultValue) : DefaultValue :=
  ⟨v.value.mapSpan f, v.condition.map (Expr.mapSpan f), f v.span⟩

/-- A reference with its spans changed. -/
def Reference.mapSpan (r : Reference) : Reference :=
  ⟨r.symbol.mapSpan f, r.condition.map (Expr.mapSpan f), f r.span⟩

/-- A property with its spans changed. -/
def Property.mapSpan : Property → Property
  | .type d => .type (d.mapSpan f)
  | .prompt text condition s => .prompt (text.mapSpan f) (condition.map (Expr.mapSpan f)) (f s)
  | .default v => .default (v.mapSpan f)
  | .defBool v => .defBool (v.mapSpan f)
  | .defTristate v => .defTristate (v.mapSpan f)
  | .dependsOn condition s => .dependsOn (condition.mapSpan f) (f s)
  | .select r => .select (r.mapSpan f)
  | .imply r => .imply (r.mapSpan f)
  | .range low high condition s =>
    .range (low.mapSpan f) (high.mapSpan f) (condition.map (Expr.mapSpan f)) (f s)
  | .visible condition s => .visible (condition.mapSpan f) (f s)
  | .help body s => .help body (f s)
  | .option name value s => .option name (value.map (StringNode.mapSpan f)) (f s)
  | .defaultMember r => .defaultMember (r.mapSpan f)

/-- An entry with its spans changed. -/
def Config.mapSpan (c : Config) : Config :=
  ⟨c.symbol.mapSpan f, c.properties.map (Property.mapSpan f), f c.span⟩

/-- A choice with its spans changed. -/
def Choice.mapSpan (c : Choice) : Choice :=
  ⟨c.properties.map (Property.mapSpan f), c.members.map (Config.mapSpan f), f c.span⟩

/-- The head of a menu with its spans changed. -/
def Menu.mapSpan (m : Menu) : Menu :=
  ⟨m.title.mapSpan f, m.properties.map (Property.mapSpan f), f m.span⟩

/-- An inclusion with its spans changed. -/
def Source.mapSpan (s : Source) : Source :=
  ⟨s.kind, s.path.mapSpan f, f s.span⟩

/-- A comment with its spans changed. -/
def Comment.mapSpan (c : Comment) : Comment :=
  ⟨c.text.mapSpan f, c.properties.map (Property.mapSpan f), f c.span⟩

/-- A title with its spans changed. -/
def MainMenu.mapSpan (m : MainMenu) : MainMenu :=
  ⟨m.title.mapSpan f, f m.span⟩

mutual

/-- A statement with its spans changed. -/
def Stmt.mapSpan : Stmt → Stmt
  | .config c => .config (c.mapSpan f)
  | .menuconfig c => .menuconfig (c.mapSpan f)
  | .choice c => .choice (c.mapSpan f)
  | .menu m body => .menu (m.mapSpan f) (Stmt.mapSpanAll body)
  | .ifBlock condition body s => .ifBlock (condition.mapSpan f) (Stmt.mapSpanAll body) (f s)
  | .source s => .source (s.mapSpan f)
  | .comment c => .comment (c.mapSpan f)

/-- The statements of a block with their spans changed. -/
def Stmt.mapSpanAll : List Stmt → List Stmt
  | [] => []
  | s :: ss => Stmt.mapSpan s :: Stmt.mapSpanAll ss

end

/-- The tree of a file with its spans changed. -/
def Root.mapSpan (r : Root) : Root :=
  ⟨r.file, r.path, r.mainMenu.map (MainMenu.mapSpan f), Stmt.mapSpanAll f r.statements⟩

/-- The same tree of another file. -/
def Root.inFile (id : FileId) (r : Root) : Root :=
  { r.mapSpan (Span.inFile id) with file := id }

/-- Two types with their spans changed. -/
def TypeConflict.mapSpan (c : TypeConflict) : TypeConflict :=
  ⟨c.first.mapSpan f, c.second.mapSpan f⟩

/-- What is wrong at a token, with its spans changed. -/
def ParseCause.mapSpan : ParseCause → ParseCause
  | .mismatch expected => .mismatch expected
  | .typeConflict conflict => .typeConflict (conflict.mapSpan f)

/-- An error of a parser with its spans changed. -/
def ParseError.mapSpan (e : ParseError) : ParseError :=
  ⟨f e.span, e.found, e.cause.mapSpan f, e.production⟩

/-- An error in a text with its spans changed. -/
def SyntaxError.mapSpan : SyntaxError → SyntaxError
  | .lex e => .lex { e with span := f e.span }
  | .parse e => .parse (e.mapSpan f)

/-- A file that gives no tree, with the spans changed. -/
def LoadError.mapSpan : LoadError → LoadError
  | .io path cause => .io path cause
  | .text path cause => .text path (cause.mapSpan f)

/-- A failure of a session with its spans changed. -/
def ResolveError.mapSpan : ResolveError → ResolveError
  | .noTarget target referrer span cause => .noTarget target referrer (f span) cause
  | .cycle files referrer span => .cycle files referrer (f span)
  | .tooDeep limit target referrer span => .tooDeep limit target referrer (f span)
  | .cancelled => .cancelled
  | .timedOut limit => .timedOut limit
  | .emptyChoice path span => .emptyChoice path (f span)
  | .load cause => .load (cause.mapSpan f)

end Change

theorem Stmt.mapSpanAll_eq_map (f : Span → Span) (block : List Stmt) :
    mapSpanAll f block = block.map (mapSpan f) := by
  induction block with
  | nil => rfl
  | cons s ss ih => rw [mapSpanAll, ih, List.map_cons]

@[simp] theorem Expr.span_mapSpan (f : Span → Span) (e : Expr) : (e.mapSpan f).span = f e.span := by
  cases e <;> rfl

theorem SyntaxError.span_mapSpan (f : Span → Span) (e : SyntaxError) : (e.mapSpan f).span = f e.span := by
  cases e <;> rfl

theorem Expr.mapSpan_tristateLiteral (f : Span → Span) (e : Expr) :
    e.tristateLiteral.mapSpan f = (e.mapSpan f).tristateLiteral := by
  cases e <;> rfl

theorem Expr.mapSpan_boolLiteral (f : Span → Span) (e : Expr) :
    e.boolLiteral.mapSpan f = (e.mapSpan f).boolLiteral := by
  cases e with
  | tristate v s => cases v <;> rfl
  | _ => rfl

/-! ## Changing nothing -/

@[simp] theorem Ident.mapSpan_id : mapSpan (fun s => s) = id := rfl

@[simp] theorem StringNode.mapSpan_id : mapSpan (fun s => s) = id := rfl

@[simp] theorem Expr.mapSpan_id : mapSpan (fun s => s) = id := by
  funext e
  induction e with
  | not operand s ih => rw [mapSpan, ih]; rfl
  | binary lhs op rhs s ih ih' => rw [mapSpan, ih, ih']; rfl
  | _ => rfl

@[simp] theorem TypeDecl.mapSpan_id : mapSpan (fun s => s) = id := by
  funext d
  simp [mapSpan]

@[simp] theorem DefaultValue.mapSpan_id : mapSpan (fun s => s) = id := by
  funext v
  simp [mapSpan]

@[simp] theorem Reference.mapSpan_id : mapSpan (fun s => s) = id := by
  funext r
  simp [mapSpan]

@[simp] theorem Property.mapSpan_id : mapSpan (fun s => s) = id := by
  funext p
  cases p <;> simp [mapSpan]

@[simp] theorem Config.mapSpan_id : mapSpan (fun s => s) = id := by
  funext c
  simp [mapSpan]

@[simp] theorem Choice.mapSpan_id : mapSpan (fun s => s) = id := by
  funext c
  simp [mapSpan]

@[simp] theorem Menu.mapSpan_id : mapSpan (fun s => s) = id := by
  funext m
  simp [mapSpan]

@[simp] theorem Source.mapSpan_id : mapSpan (fun s => s) = id := rfl

@[simp] theorem Comment.mapSpan_id : mapSpan (fun s => s) = id := by
  funext c
  simp [mapSpan]

@[simp] theorem MainMenu.mapSpan_id : mapSpan (fun s => s) = id := rfl

mutual

theorem Stmt.mapSpan_id : ∀ s : Stmt, s.mapSpan (fun s => s) = s
  | .config c | .menuconfig c | .choice c | .source c | .comment c => by simp [Stmt.mapSpan]
  | .menu m body => by simp [Stmt.mapSpan, Stmt.mapSpanAll_id body]
  | .ifBlock condition body s => by simp [Stmt.mapSpan, Stmt.mapSpanAll_id body]

@[simp] theorem Stmt.mapSpanAll_id : ∀ block : List Stmt, Stmt.mapSpanAll (fun s => s) block = block
  | [] => rfl
  | s :: ss => by rw [Stmt.mapSpanAll, Stmt.mapSpan_id s, Stmt.mapSpanAll_id ss]

end

@[simp] theorem ParseError.mapSpan_id (e : ParseError) : e.mapSpan (fun s => s) = e := by
  obtain ⟨span, found, cause, production⟩ := e
  cases cause <;> simp [mapSpan, ParseCause.mapSpan, TypeConflict.mapSpan]

/-! ## Changing spans twice -/

section Twice

variable (f g : Span → Span)

@[simp] theorem Ident.mapSpan_mapSpan (id : Ident) :
    (id.mapSpan f).mapSpan g = id.mapSpan fun s => g (f s) := rfl

@[simp] theorem StringNode.mapSpan_mapSpan (s : StringNode) :
    (s.mapSpan f).mapSpan g = s.mapSpan fun s => g (f s) := rfl

@[simp] theorem Expr.mapSpan_mapSpan (e : Expr) :
    (e.mapSpan f).mapSpan g = e.mapSpan fun s => g (f s) := by
  induction e with
  | not operand s ih => simp [mapSpan, ih]
  | binary lhs op rhs s ih ih' => simp [mapSpan, ih, ih']
  | _ => rfl

@[simp] theorem TypeDecl.mapSpan_mapSpan (d : TypeDecl) :
    (d.mapSpan f).mapSpan g = d.mapSpan fun s => g (f s) := by
  simp [mapSpan, Function.comp_def]

@[simp] theorem DefaultValue.mapSpan_mapSpan (v : DefaultValue) :
    (v.mapSpan f).mapSpan g = v.mapSpan fun s => g (f s) := by
  simp [mapSpan, Function.comp_def]

@[simp] theorem Reference.mapSpan_mapSpan (r : Reference) :
    (r.mapSpan f).mapSpan g = r.mapSpan fun s => g (f s) := by
  simp [mapSpan, Function.comp_def]

@[simp] theorem Property.mapSpan_mapSpan (p : Property) :
    (p.mapSpan f).mapSpan g = p.mapSpan fun s => g (f s) := by
  cases p <;> simp [mapSpan, Function.comp_def]

@[simp] theorem Config.mapSpan_mapSpan (c : Config) :
    (c.mapSpan f).mapSpan g = c.mapSpan fun s => g (f s) := by
  simp [mapSpan, Function.comp_def]

@[simp] theorem Choice.mapSpan_mapSpan (c : Choice) :
    (c.mapSpan f).mapSpan g = c.mapSpan fun s => g (f s) := by
  simp [mapSpan, Function.comp_def]

@[simp] theorem Menu.mapSpan_mapSpan (m : Menu) :
    (m.mapSpan f).mapSpan g = m.mapSpan fun s => g (f s) := by
  simp [mapSpan, Function.comp_def]

@[simp] theorem Source.mapSpan_mapSpan (s : Source) :
    (s.mapSpan f).mapSpan g = s.mapSpan fun s => g (f s) := rfl

@[simp] theorem Comment.mapSpan_mapSpan (c : Comment) :
    (c.mapSpan f).mapSpan g = c.mapSpan fun s => g (f s) := by
  simp [mapSpan, Function.comp_def]

@[simp] theorem MainMenu.mapSpan_mapSpan (m : MainMenu) :
    (m.mapSpan f).mapSpan g = m.mapSpan fun s => g (f s) := rfl

mutual

@[simp] theorem Stmt.mapSpan_mapSpan : ∀ s : Stmt,
    (s.mapSpan f).mapSpan g = s.mapSpan fun s => g (f s)
  | .config c | .menuconfig c | .choice c | .source c | .comment c => by simp [Stmt.mapSpan]
  | .menu m body => by simp [Stmt.mapSpan, Stmt.mapSpanAll_mapSpanAll body]
  | .ifBlock condition body s => by simp [Stmt.mapSpan, Stmt.mapSpanAll_mapSpanAll body]

@[simp] theorem Stmt.mapSpanAll_mapSpanAll : ∀ block : List Stmt,
    Stmt.mapSpanAll g (Stmt.mapSpanAll f block) = Stmt.mapSpanAll (fun s => g (f s)) block
  | [] => rfl
  | s :: ss => by simp [Stmt.mapSpanAll, Stmt.mapSpan_mapSpan s, Stmt.mapSpanAll_mapSpanAll ss]

end

@[simp] theorem TypeConflict.mapSpan_mapSpan (c : TypeConflict) :
    (c.mapSpan f).mapSpan g = c.mapSpan fun s => g (f s) := by
  simp [mapSpan]

theorem SyntaxError.mapSpan_mapSpan (e : SyntaxError) :
    (e.mapSpan f).mapSpan g = e.mapSpan fun s => g (f s) := by
  cases e with
  | lex e => rfl
  | parse e =>
    obtain ⟨span, found, cause, production⟩ := e
    cases cause <;> simp [mapSpan, ParseError.mapSpan, ParseCause.mapSpan]

end Twice

/-! ## Trees without positions -/

theorem Expr.erase_eq_mapSpan (e : Expr) : e.erase = e.mapSpan fun _ => .blank := by
  induction e with
  | not operand s ih => rw [erase, ih, mapSpan]
  | binary lhs op rhs s ih ih' => rw [erase, ih, ih', mapSpan]
  | _ => rfl

theorem Property.erase_eq_mapSpan (p : Property) : p.erase = p.mapSpan fun _ => .blank := by
  have hexpr : Expr.erase = Expr.mapSpan fun _ => .blank := funext Expr.erase_eq_mapSpan
  have hstring : StringNode.erase = StringNode.mapSpan fun _ => .blank := rfl
  cases p <;>
    simp only [erase, mapSpan, TypeDecl.erase, TypeDecl.mapSpan, DefaultValue.erase, DefaultValue.mapSpan,
      Reference.erase, Reference.mapSpan, hexpr, hstring] <;> rfl

theorem Config.erase_eq_mapSpan (c : Config) : c.erase = c.mapSpan fun _ => .blank := by
  rw [erase, funext Property.erase_eq_mapSpan]
  rfl

theorem Choice.erase_eq_mapSpan (c : Choice) : c.erase = c.mapSpan fun _ => .blank := by
  rw [erase, funext Property.erase_eq_mapSpan, funext Config.erase_eq_mapSpan]
  rfl

theorem Menu.erase_eq_mapSpan (m : Menu) : m.erase = m.mapSpan fun _ => .blank := by
  rw [erase, funext Property.erase_eq_mapSpan]
  rfl

theorem Comment.erase_eq_mapSpan (c : Comment) : c.erase = c.mapSpan fun _ => .blank := by
  rw [erase, funext Property.erase_eq_mapSpan]
  rfl

mutual

theorem Stmt.erase_eq_mapSpan : ∀ s : Stmt, s.erase = s.mapSpan fun _ => .blank
  | .config c | .menuconfig c => by rw [Stmt.erase, Config.erase_eq_mapSpan, Stmt.mapSpan]
  | .choice c => by rw [Stmt.erase, Choice.erase_eq_mapSpan, Stmt.mapSpan]
  | .menu m body => by rw [Stmt.erase, Menu.erase_eq_mapSpan, Stmt.eraseAll_eq_mapSpanAll body, Stmt.mapSpan]
  | .ifBlock condition body s => by
    rw [Stmt.erase, Expr.erase_eq_mapSpan, Stmt.eraseAll_eq_mapSpanAll body, Stmt.mapSpan]
  | .source s => rfl
  | .comment c => by rw [Stmt.erase, Comment.erase_eq_mapSpan, Stmt.mapSpan]

theorem Stmt.eraseAll_eq_mapSpanAll : ∀ block : List Stmt,
    Stmt.eraseAll block = Stmt.mapSpanAll (fun _ => .blank) block
  | [] => rfl
  | s :: ss => by
    rw [Stmt.eraseAll, Stmt.erase_eq_mapSpan s, Stmt.eraseAll_eq_mapSpanAll ss, Stmt.mapSpanAll]

end

theorem Root.erase_inFile (id : FileId) (r : Root) : (r.inFile id).erase = r.erase := by
  have htitle : MainMenu.erase ∘ MainMenu.mapSpan (Span.inFile id) = MainMenu.erase := rfl
  show Root.mk .root none ((r.mainMenu.map _).map MainMenu.erase) (Stmt.eraseAll (Stmt.mapSpanAll _ _)) = _
  rw [Option.map_map, htitle, Stmt.eraseAll_eq_mapSpanAll, Stmt.mapSpanAll_mapSpanAll,
    ← Stmt.eraseAll_eq_mapSpanAll]
  rfl

/-! ## The spans of a tree -/

/-- The spans of an expression. -/
def Expr.spans : Expr → List Span
  | .symbol id => [id.span]
  | .string lit => [lit.span]
  | .bool _ s | .tristate _ s | .int _ s | .hex _ s => [s]
  | .not operand s => s :: operand.spans
  | .binary lhs _ rhs s => s :: (lhs.spans ++ rhs.spans)

/-- The spans of an optional condition. -/
def Expr.optionSpans (condition : Option Expr) : List Span :=
  condition.toList.flatMap Expr.spans

/-- The spans of a property. -/
def Property.spans : Property → List Span
  | .type d => d.span :: (d.prompt.toList.map StringNode.span ++ Expr.optionSpans d.condition)
  | .prompt text condition s => s :: text.span :: Expr.optionSpans condition
  | .default v | .defBool v | .defTristate v => v.span :: (v.value.spans ++ Expr.optionSpans v.condition)
  | .dependsOn condition s | .visible condition s => s :: condition.spans
  | .select r | .imply r | .defaultMember r =>
    r.span :: r.symbol.span :: Expr.optionSpans r.condition
  | .range low high condition s => s :: (low.spans ++ high.spans ++ Expr.optionSpans condition)
  | .help _ s => [s]
  | .option _ value s => s :: value.toList.map StringNode.span

/-- The spans of an entry. -/
def Config.spans (c : Config) : List Span :=
  c.span :: c.symbol.span :: c.properties.flatMap Property.spans

/-- The spans of the head of a menu. -/
def Menu.spans (m : Menu) : List Span :=
  m.span :: m.title.span :: m.properties.flatMap Property.spans

mutual

/-- The spans of a statement. -/
def Stmt.spans : Stmt → List Span
  | .config c | .menuconfig c => c.spans
  | .choice c => c.span :: (c.properties.flatMap Property.spans ++ c.members.flatMap Config.spans)
  | .menu m body => m.spans ++ Stmt.spansAll body
  | .ifBlock condition body s => (s :: condition.spans) ++ Stmt.spansAll body
  | .source s => [s.span, s.path.span]
  | .comment c => c.span :: c.text.span :: c.properties.flatMap Property.spans

/-- The spans of a block. -/
def Stmt.spansAll : List Stmt → List Span
  | [] => []
  | s :: ss => Stmt.spans s ++ Stmt.spansAll ss

end

/-- The spans of a title. -/
def MainMenu.spans (m : MainMenu) : List Span :=
  [m.span, m.title.span]

/-- The spans of the tree of a file. -/
def Root.spans (r : Root) : List Span :=
  r.mainMenu.toList.flatMap MainMenu.spans ++ Stmt.spansAll r.statements

theorem Stmt.spansAll_append (ss ts : List Stmt) : spansAll (ss ++ ts) = spansAll ss ++ spansAll ts := by
  induction ss with
  | nil => rfl
  | cons s ss ih => rw [List.cons_append, spansAll, spansAll, ih, List.append_assoc]

section Map

variable (f : Span → Span)

@[simp] theorem Expr.spans_mapSpan (e : Expr) : (e.mapSpan f).spans = e.spans.map f := by
  induction e with
  | not operand s ih => simp [mapSpan, spans, ih]
  | binary lhs op rhs s ih ih' => simp [mapSpan, spans, ih, ih']
  | _ => rfl

@[simp] theorem Expr.optionSpans_mapSpan (condition : Option Expr) :
    optionSpans (condition.map (mapSpan f)) = (optionSpans condition).map f := by
  cases condition <;> simp [optionSpans]

@[simp] theorem StringNode.span_mapSpan (s : StringNode) : (s.mapSpan f).span = f s.span := rfl

@[simp] theorem Property.spans_mapSpan (p : Property) : (p.mapSpan f).spans = p.spans.map f := by
  have hstring (s : Option StringNode) : (s.map (StringNode.mapSpan f)).toList.map StringNode.span =
      (s.toList.map StringNode.span).map f := by
    cases s <;> rfl
  cases p <;>
    simp [mapSpan, spans, TypeDecl.mapSpan, DefaultValue.mapSpan, Reference.mapSpan, Ident.mapSpan, hstring]

@[simp] theorem Property.flatMap_spans_mapSpan (ps : List Property) :
    (ps.map (mapSpan f)).flatMap spans = (ps.flatMap spans).map f := by
  simp [List.flatMap_map, List.map_flatMap]

@[simp] theorem Config.spans_mapSpan (c : Config) : (c.mapSpan f).spans = c.spans.map f := by
  simp [mapSpan, spans, Ident.mapSpan]

@[simp] theorem Menu.spans_mapSpan (m : Menu) : (m.mapSpan f).spans = m.spans.map f := by
  simp [mapSpan, spans]

mutual

@[simp] theorem Stmt.spans_mapSpan : ∀ s : Stmt, (s.mapSpan f).spans = s.spans.map f
  | .config c | .menuconfig c => by simp [Stmt.mapSpan, Stmt.spans]
  | .choice c => by
    simp [Stmt.mapSpan, Stmt.spans, Choice.mapSpan, List.flatMap_map, List.map_flatMap]
  | .menu m body => by simp [Stmt.mapSpan, Stmt.spans, Stmt.spansAll_mapSpanAll body]
  | .ifBlock condition body s => by simp [Stmt.mapSpan, Stmt.spans, Stmt.spansAll_mapSpanAll body]
  | .source s => rfl
  | .comment c => by simp [Stmt.mapSpan, Stmt.spans, Comment.mapSpan]

@[simp] theorem Stmt.spansAll_mapSpanAll : ∀ block : List Stmt,
    Stmt.spansAll (Stmt.mapSpanAll f block) = (Stmt.spansAll block).map f
  | [] => rfl
  | s :: ss => by
    rw [Stmt.mapSpanAll, Stmt.spansAll, Stmt.spansAll, Stmt.spans_mapSpan s, Stmt.spansAll_mapSpanAll ss,
      List.map_append]

end

theorem MainMenu.flatMap_spans_mapSpan (m : Option MainMenu) :
    (m.map (mapSpan f)).toList.flatMap spans = (m.toList.flatMap spans).map f := by
  cases m <;> rfl

theorem Root.spans_mapSpan (r : Root) : (r.mapSpan f).spans = r.spans.map f := by
  simp [mapSpan, spans, MainMenu.flatMap_spans_mapSpan]

end Map

end KconfigLang
