import KconfigLang.Proofs.Grammar.Acceptance
import KconfigLang.Proofs.Grammar.Printing
import KconfigLang.Proofs.Token.Layout
import KconfigLang.Proofs.Tree.Reading
import KconfigLang.Proofs.Tree.SExprText

/-!
# Trees that are written

What holds of the trees of texts and makes their S-expressions readable: names and numbers are those of tokens,
no `y` or `n` is a tristate literal but in `default` and `def_tristate` lines, and only choices have default
members.

- `SExpr.ReadsBack`: an S-expression is made of words and is read as a node.
- `Expr.IsWritten`, `Property.IsWritten`, `Stmt.IsWritten` and `Root.IsWritten`: what holds of the trees of texts.
- `Root.IsWritten.readsBack`: the S-expression of such a tree is read back.
-/

namespace KconfigLang

/-- An S-expression is made of words and is read as a node. -/
structure SExpr.ReadsBack {α : Type} (read : SExpr → Option α) (e : SExpr) (v : α) : Prop where
  clean : e.IsClean
  read_eq : read e = some v

/-! ## Words -/

/-- A class of characters without white space, parentheses and quotes. -/
theorem SExpr.isWordChar_of_class {p : Char → Bool} (hopen : p '(' = false) (hclose : p ')' = false)
    (hquote : p '"' = false) {c : Char} (hc : p c = true) (hwhite : Text.isWhiteSpace c = false) :
    SExpr.isWordChar c = true := by
  have hne {d : Char} (hd : p d = false) : c ≠ d := by
    rintro rfl
    exact absurd hc (Bool.eq_false_iff.mp hd)
  simp [isWordChar, hwhite, hne hopen, hne hclose, hne hquote]

theorem SExpr.isWordChar_of_alphanum {c : Char} (h : c.isAlphanum = true) : SExpr.isWordChar c = true :=
  isWordChar_of_class (by decide) (by decide) (by decide) h (not_white_of_alphanum h)

theorem SExpr.isWordChar_of_isWordChar {c : Char} (h : Lexeme.isWordChar c = true) :
    SExpr.isWordChar c = true := by
  rcases (Bool.or_eq_true _ _).mp h with h | h
  · exact isWordChar_of_alphanum h
  · rw [of_decide_eq_true h]
    decide

theorem SExpr.isWordChar_of_isHexDigit {c : Char} (h : Text.isHexDigit c = true) :
    SExpr.isWordChar c = true :=
  isWordChar_of_class (by decide) (by decide) (by decide) h (Text.not_white_of_isHexDigit h)

theorem SExpr.isWord_of_toList {text : String} {c : Char} {cs : List Char} (htext : text.toList = c :: cs)
    (hc : isWordChar c = true) (hcs : ∀ d ∈ cs, isWordChar d = true) : SExpr.IsWord text := by
  rw [IsWord, htext]
  exact ⟨List.cons_ne_nil c cs, List.forall_mem_cons.mpr ⟨hc, hcs⟩⟩

theorem isWord_ident {name : String} (h : (Token.ident name).Readable) : SExpr.IsWord name := by
  obtain ⟨-, -, c, cs, hname, hc, hcs⟩ := h
  refine SExpr.isWord_of_toList hname (SExpr.isWordChar_of_alphanum ?_) fun d hd =>
    SExpr.isWordChar_of_isWordChar (hcs d hd)
  simp [Char.isAlphanum, hc]

theorem isWordChar_of_mem_toDigits {n : Nat} {c : Char} (h : c ∈ Nat.toDigits 10 n) :
    SExpr.isWordChar c = true := by
  have hdigit : c.isDigit = true := isDigit_of_mem_toDigits c h
  exact SExpr.isWordChar_of_alphanum (by simp [Char.isAlphanum, hdigit])

/-- The tokens that are expressions on their own are words. -/
theorem isWord_text {t : Token} (h : t.Readable) {e : Expr} (he : Expr.ofToken? t = some e) :
    SExpr.IsWord t.text := by
  cases t with
  | tristate v => cases v <;> decide
  | number v =>
    have hdigits (n : Nat) : ∀ c ∈ Nat.toDigits 10 n, SExpr.isWordChar c = true :=
      fun _ => isWordChar_of_mem_toDigits
    cases v with
    | ofNat n =>
      rw [SExpr.IsWord, Int.ofNat_eq_natCast, Token.toList_text_natural]
      exact ⟨Nat.toDigits_ne_nil, hdigits n⟩
    | negSucc n => exact SExpr.isWord_of_toList (Token.toList_text_negSucc n) (by decide) (hdigits (n + 1))
  | hexNumber v =>
    refine SExpr.isWord_of_toList (Token.toList_text_hexNumber v) (by decide)
      (List.forall_mem_cons.mpr ⟨by decide, fun c hc => ?_⟩)
    exact SExpr.isWordChar_of_isHexDigit (Text.isHexDigit_of_mem_hexDigits hc)
  | ident name => exact isWord_ident h
  | _ => exact absurd he (Option.some_ne_none _).symm

/-- A token that is an expression on its own is read from its text. -/
theorem Token.ofText?_text {t : Token} (h : t.Readable) {e : Expr} (he : Expr.ofToken? t = some e) :
    Token.ofText? t.text = some t := by
  have hexpr : t.isOfExpr = true := by
    cases t with
    | keyword k => exact absurd he (Option.some_ne_none _).symm
    | help body => exact absurd he (Option.some_ne_none _).symm
    | _ => rfl
  obtain ⟨c, cs, htext, hread⟩ := spells_text h hexpr
  have hlexeme := hread [] fun _ h => absurd h (Option.some_ne_none _).symm
  rw [List.append_nil] at hlexeme
  simp [ofText?, htext, hlexeme]

/-! ## Expressions -/

open SExpr (ReadsBack)

theorem readsBack_token {t : Token} (h : t.Readable) {e : Expr} (he : Expr.ofToken? t = some e) :
    ReadsBack Expr.ofSExpr? (.word t.text) e := by
  refine ⟨isWord_text h he, ?_⟩
  rw [Expr.ofSExpr?, Token.ofText?_text h he]
  exact he

theorem BinaryOp.isWord_head (op : BinaryOp) : SExpr.IsWord op.head := by
  cases op <;> decide

theorem BinaryOp.ofHead?_head (op : BinaryOp) : BinaryOp.ofHead? op.head = some op := by
  cases op <;> decide

/-- An expression as it is written: its tokens are readable, and no `y` or `n` in it is a tristate literal. -/
structure Expr.IsWritten (e : Expr) : Prop where
  bare : e.IsBare
  readable : ∀ t ∈ e.leafTokens, t.Readable

/-- An expression that is written is read back. -/
theorem Expr.IsWritten.readsBack {e : Expr} (hwritten : e.IsWritten) :
    ReadsBack Expr.ofSExpr? e.toSExpr e.content := by
  obtain ⟨hbare, h⟩ := hwritten
  induction e with
  | symbol id => exact readsBack_token (h _ List.mem_cons_self) rfl
  | bool value _ =>
    have hread : ReadsBack Expr.ofSExpr? (.word (Token.tristate (.ofBool value)).text) (.bool value .blank) :=
      readsBack_token (h _ List.mem_cons_self) (by cases value <;> rfl)
    exact hread
  | tristate value _ =>
    obtain rfl : value = .module := hbare
    exact readsBack_token (t := .tristate .module) trivial rfl
  | int value _ => exact readsBack_token (t := .number value) (h _ List.mem_cons_self) rfl
  | hex value _ => exact readsBack_token (t := .hexNumber value) (h _ List.mem_cons_self) rfl
  | string lit => exact ⟨trivial, rfl⟩
  | not operand _ ih =>
    have hoperand := ih hbare h
    refine ⟨⟨by decide, hoperand.clean, trivial⟩, ?_⟩
    rw [toSExpr, ofSExpr?, hoperand.read_eq]
    rfl
  | binary lhs op rhs _ ihl ihr =>
    obtain ⟨hl, hr⟩ := List.forall_mem_append.mp h
    have hlhs := ihl hbare.1 hl
    have hrhs := ihr hbare.2 hr
    refine ⟨⟨op.isWord_head, hlhs.clean, hrhs.clean, trivial⟩, ?_⟩
    rw [toSExpr, ofSExpr?, hlhs.read_eq, hrhs.read_eq, BinaryOp.ofHead?_head]
    rfl

/-! ## Conditions and values -/

/-- A condition, if there is one, is written. -/
def Expr.ConditionIsWritten (condition : Option Expr) : Prop :=
  ∀ e ∈ condition, e.IsWritten

/-- A condition is read back from its items. -/
theorem Expr.ConditionIsWritten.readsBack {condition : Option Expr} (h : ConditionIsWritten condition) :
    SExpr.AllClean (conditionItems condition) ∧
      Expr.conditionOf? (conditionItems condition) = condition.map Expr.content := by
  cases condition with
  | none => exact ⟨trivial, rfl⟩
  | some e =>
    have hexpr := (h e rfl).readsBack
    have hif : SExpr.IsWord "if" := by decide
    exact ⟨⟨hif, hexpr.clean, trivial⟩, hexpr.read_eq⟩

/-- How a value is stored does not show in its S-expression. -/
structure Expr.Keeps (stored : Expr → Expr) : Prop where
  toSExpr_eq : ∀ e : Expr, (stored e).toSExpr = e.toSExpr
  content_eq : ∀ e : Expr, (stored e).content = stored e.content

theorem Expr.keeps_id : Expr.Keeps id :=
  ⟨fun _ => rfl, fun _ => rfl⟩

theorem Expr.keeps_tristateLiteral : Expr.Keeps Expr.tristateLiteral := by
  constructor
  · intro e
    cases e <;> rfl
  · intro e
    cases e <;> rfl

/-- A value that is stored in the given way is written. -/
structure DefaultValue.IsWritten (stored : Expr → Expr) (v : DefaultValue) : Prop where
  value : ∃ e : Expr, e.IsWritten ∧ v.value = stored e
  condition : Expr.ConditionIsWritten v.condition

/-- A value with its condition is read back. -/
theorem DefaultValue.IsWritten.readsBack {stored : Expr → Expr} {v : DefaultValue} (h : v.IsWritten stored)
    (hstored : Expr.Keeps stored) (head : String) (hhead : SExpr.IsWord head) :
    (v.toSExpr head).IsClean ∧
      DefaultValue.ofItems? stored v.value.toSExpr (conditionItems v.condition) = some v.content := by
  obtain ⟨⟨e, he, hvalue⟩, hcondition⟩ := h
  obtain ⟨hclean, hread⟩ := hcondition.readsBack
  have hsexpr : v.value.toSExpr = e.toSExpr := by rw [hvalue, hstored.toSExpr_eq]
  constructor
  · exact ⟨hhead, hsexpr ▸ he.readsBack.clean, hclean⟩
  · rw [ofItems?, hsexpr, he.readsBack.read_eq, hread, Option.map_some, ← hstored.content_eq, ← hvalue]
    rfl

/-- A symbol with its condition is written. -/
structure Reference.IsWritten (r : Reference) : Prop where
  symbol : (Token.ident r.symbol.name).Readable
  condition : Expr.ConditionIsWritten r.condition

/-- A symbol with its condition is read back. -/
theorem Reference.IsWritten.readsBack {r : Reference} (h : r.IsWritten) (head : String)
    (hhead : SExpr.IsWord head) :
    (r.toSExpr head).IsClean ∧
      Reference.ofItems? (.word r.symbol.name) (conditionItems r.condition) = some r.content := by
  obtain ⟨hclean, hread⟩ := h.condition.readsBack
  constructor
  · exact ⟨hhead, isWord_ident h.symbol, hclean⟩
  · rw [ofItems?, hread]
    rfl

/-! ## Properties -/

/-- The token of an option name is readable. -/
def OptionName.IsWritten (name : OptionName) : Prop :=
  (Derivation.optionToken name).Readable

theorem OptionName.IsWritten.readsBack {name : OptionName} (h : name.IsWritten) :
    SExpr.IsWord name.text ∧ OptionName.ofText name.text = name := by
  cases name with
  | other name =>
    have hident : (Token.ident name).Readable := h
    refine ⟨isWord_ident hident, ?_⟩
    -- A name that is no keyword is none of the names that are.
    obtain ⟨-, hword, -⟩ := hident
    have hkeyword : Keyword.ofText? name = none := by
      unfold Token.ofWord at hword
      split at hword <;> simp_all
    simp [ofText, text, hkeyword]
  | _ => decide

/-- What holds of a property that stands in a text, in a choice or elsewhere. -/
def Property.IsWritten (ofChoice : Bool) : Property → Prop
  | .type d => Expr.ConditionIsWritten d.condition
  | .prompt _ condition _ => Expr.ConditionIsWritten condition
  | .default v => ofChoice = false ∧ v.IsWritten Expr.tristateLiteral
  | .defBool v => v.IsWritten id
  | .defTristate v => v.IsWritten Expr.tristateLiteral
  | .dependsOn condition _ | .visible condition _ => condition.IsWritten
  | .select r | .imply r => r.IsWritten
  | .range low high condition _ =>
    low.IsWritten ∧ high.IsWritten ∧ Expr.ConditionIsWritten condition
  | .help .. => True
  | .option name _ _ => name.IsWritten
  | .defaultMember r => ofChoice = true ∧ r.IsWritten

theorem SymbolType.readsBack (kind : SymbolType) :
    SExpr.IsWord kind.text ∧ SymbolType.ofText? kind.text = some kind := by
  cases kind <;> decide

/-- A property that is written is read back. -/
theorem Property.IsWritten.readsBack {ofChoice : Bool} {p : Property} (h : p.IsWritten ofChoice) :
    ReadsBack (Property.ofSExpr? ofChoice) p.toSExpr p.content := by
  cases p with
  | type d =>
    obtain ⟨kind, prompt, condition, pos⟩ := d
    obtain ⟨hword, hkind⟩ := kind.readsBack
    obtain ⟨hclean, hread⟩ := Expr.ConditionIsWritten.readsBack h
    cases prompt with
    | none =>
      refine ⟨⟨by decide, hword, hclean⟩, ?_⟩
      -- Without a prompt the word `if` stands behind the type, if anything does.
      have htype : Property.ofSExpr? ofChoice (.list "type" (.word kind.text :: conditionItems condition)) =
          (SymbolType.ofText? kind.text).map fun kind =>
            .type ⟨kind, none, Expr.conditionOf? (conditionItems condition), .blank⟩ := by
        cases condition <;> rfl
      refine htype.trans ?_
      rw [hkind, hread]
      rfl
    | some text =>
      refine ⟨⟨by decide, hword, trivial, hclean⟩, ?_⟩
      show Property.ofSExpr? ofChoice
        (.list "type" (.word kind.text :: .quoted text.value :: conditionItems condition)) = _
      rw [ofSExpr?, hkind, hread]
      rfl
  | prompt text condition pos =>
    obtain ⟨hclean, hread⟩ := Expr.ConditionIsWritten.readsBack h
    refine ⟨⟨by decide, trivial, hclean⟩, ?_⟩
    show Property.ofSExpr? ofChoice (.list "prompt" (.quoted text.value :: conditionItems condition)) = _
    rw [ofSExpr?, hread]
    rfl
  | default v =>
    obtain ⟨rfl, hvalue⟩ := h
    obtain ⟨hclean, hread⟩ := hvalue.readsBack Expr.keeps_tristateLiteral "default" (by decide)
    refine ⟨hclean, ?_⟩
    rw [toSExpr, DefaultValue.toSExpr, ofSExpr?, if_neg Bool.false_ne_true, hread]
    rfl
  | defBool v =>
    obtain ⟨hclean, hread⟩ := DefaultValue.IsWritten.readsBack h Expr.keeps_id "def_bool" (by decide)
    refine ⟨hclean, ?_⟩
    rw [toSExpr, DefaultValue.toSExpr, ofSExpr?, hread]
    rfl
  | defTristate v =>
    obtain ⟨hclean, hread⟩ :=
      DefaultValue.IsWritten.readsBack h Expr.keeps_tristateLiteral "def_tristate" (by decide)
    refine ⟨hclean, ?_⟩
    rw [toSExpr, DefaultValue.toSExpr, ofSExpr?, hread]
    rfl
  | dependsOn condition pos =>
    have hexpr := Expr.IsWritten.readsBack h
    refine ⟨⟨by decide, hexpr.clean, trivial⟩, ?_⟩
    rw [toSExpr, ofSExpr?, hexpr.read_eq]
    rfl
  | select r =>
    obtain ⟨hclean, hread⟩ := Reference.IsWritten.readsBack h "select" (by decide)
    refine ⟨hclean, ?_⟩
    rw [toSExpr, Reference.toSExpr, ofSExpr?, hread]
    rfl
  | imply r =>
    obtain ⟨hclean, hread⟩ := Reference.IsWritten.readsBack h "imply" (by decide)
    refine ⟨hclean, ?_⟩
    rw [toSExpr, Reference.toSExpr, ofSExpr?, hread]
    rfl
  | range low high condition pos =>
    obtain ⟨hlow, hhigh, hcondition⟩ := h
    obtain ⟨hclean, hread⟩ := hcondition.readsBack
    refine ⟨⟨by decide, hlow.readsBack.clean, hhigh.readsBack.clean, hclean⟩, ?_⟩
    rw [toSExpr, ofSExpr?, hlow.readsBack.read_eq, hhigh.readsBack.read_eq, hread]
    rfl
  | visible condition pos =>
    have hexpr := Expr.IsWritten.readsBack h
    refine ⟨⟨by decide, hexpr.clean, trivial⟩, ?_⟩
    rw [toSExpr, ofSExpr?, hexpr.read_eq]
    rfl
  | help body pos => exact ⟨⟨by decide, trivial, trivial⟩, rfl⟩
  | option name value pos =>
    obtain ⟨hword, hname⟩ := OptionName.IsWritten.readsBack h
    cases value with
    | none =>
      refine ⟨⟨by decide, hword, trivial⟩, ?_⟩
      show Property.ofSExpr? ofChoice (.list "option" [.word name.text]) = _
      rw [ofSExpr?, hname]
      rfl
    | some value =>
      refine ⟨⟨by decide, hword, trivial, trivial⟩, ?_⟩
      show Property.ofSExpr? ofChoice (.list "option" [.word name.text, .quoted value.value]) = _
      rw [ofSExpr?, hname]
      rfl
  | defaultMember r =>
    obtain ⟨rfl, hreference⟩ := h
    obtain ⟨hclean, hread⟩ := hreference.readsBack "default" (by decide)
    refine ⟨hclean, ?_⟩
    rw [toSExpr, Reference.toSExpr, ofSExpr?, if_pos rfl, hread]
    rfl

/-! ## Statements -/

/-- Nodes that are read back one by one are read back from a list that holds nothing else. -/
theorem SExpr.ReadsBack.map {α β : Type} {read : SExpr → Option β} {toSExpr : α → SExpr} {content : α → β}
    {nodes : List α} (h : ∀ a ∈ nodes, ReadsBack read (toSExpr a) (content a)) :
    SExpr.AllClean (nodes.map toSExpr) ∧ (nodes.map toSExpr).filterMap read = nodes.map content := by
  induction nodes with
  | nil => exact ⟨trivial, rfl⟩
  | cons a as ih =>
    obtain ⟨ha, has⟩ := List.forall_mem_cons.mp h
    obtain ⟨hclean, hread⟩ := ih has
    refine ⟨⟨ha.clean, hclean⟩, ?_⟩
    rw [List.map_cons, List.filterMap_cons_some ha.read_eq, hread, List.map_cons]

/-- All of some properties are written. -/
def Property.AllWritten (ofChoice : Bool) (ps : List Property) : Prop :=
  ∀ p ∈ ps, p.IsWritten ofChoice

theorem Property.allOfSExprs_append (ofChoice : Bool) (es fs : List SExpr) :
    allOfSExprs ofChoice (es ++ fs) = allOfSExprs ofChoice es ++ allOfSExprs ofChoice fs :=
  List.filterMap_append

theorem Property.AllWritten.readsBack {ofChoice : Bool} {ps : List Property} (h : AllWritten ofChoice ps) :
    SExpr.AllClean (ps.map Property.toSExpr) ∧
      Property.allOfSExprs ofChoice (ps.map Property.toSExpr) = ps.map Property.content :=
  SExpr.ReadsBack.map fun p hp => (h p hp).readsBack

/-- The name and the properties of an entry are written. -/
structure Config.IsWritten (c : Config) : Prop where
  symbol : (Token.ident c.symbol.name).Readable
  properties : Property.AllWritten false c.properties

theorem Config.IsWritten.readsBack {c : Config} (h : c.IsWritten) {head : String}
    (hhead : SExpr.IsWord head) : (c.toSExpr head).IsClean ∧
      Config.ofItems? (.word c.symbol.name :: c.properties.map Property.toSExpr) = some c.content := by
  obtain ⟨hclean, hread⟩ := h.properties.readsBack
  constructor
  · exact ⟨hhead, isWord_ident h.symbol, hclean⟩
  · rw [ofItems?, hread]
    rfl

/-- A member of a choice is read back. -/
theorem Config.IsWritten.readsBack_member {c : Config} (h : c.IsWritten) :
    ReadsBack Config.ofSExpr? (c.toSExpr "config") c.content := by
  obtain ⟨hclean, hread⟩ := h.readsBack (show SExpr.IsWord "config" by decide)
  exact ⟨hclean, hread⟩

namespace Stmt

theorem toSExprs_eq_map (ss : List Stmt) : toSExprs ss = ss.map toSExpr := by
  induction ss with
  | nil => rfl
  | cons s ss ih => rw [toSExprs, ih, List.map_cons]

/-- No statement is read as a property. -/
theorem allOfSExprs_toSExprs (ofChoice : Bool) (ss : List Stmt) :
    Property.allOfSExprs ofChoice (toSExprs ss) = [] := by
  rw [toSExprs_eq_map, Property.allOfSExprs, List.filterMap_eq_nil_iff]
  intro e he
  obtain ⟨s, -, rfl⟩ := List.mem_map.mp he
  exact Property.ofSExpr?_stmt ofChoice s

/-- No property is read as a statement. -/
theorem allOfSExprs_append (ps : List Property) (es : List SExpr) :
    allOfSExprs (ps.map Property.toSExpr ++ es) = allOfSExprs es := by
  induction ps with
  | nil => rfl
  | cons p ps ih => rw [List.map_cons, List.cons_append, allOfSExprs, ofSExpr?_property, ih]; rfl

/-- No member of a choice is read as a property. -/
theorem allOfSExprs_members (ofChoice : Bool) (cs : List Config) :
    Property.allOfSExprs ofChoice (cs.map (Config.toSExpr "config")) = [] := by
  rw [Property.allOfSExprs, List.filterMap_eq_nil_iff]
  intro e he
  obtain ⟨c, -, rfl⟩ := List.mem_map.mp he
  exact Property.ofSExpr?_stmt ofChoice (.config c)

/-- No property is read as a member of a choice. -/
theorem filterMap_properties (ps : List Property) :
    (ps.map Property.toSExpr).filterMap Config.ofSExpr? = [] := by
  rw [List.filterMap_eq_nil_iff]
  intro e he
  obtain ⟨p, -, rfl⟩ := List.mem_map.mp he
  exact Config.ofSExpr?_property p

mutual

/-- What holds of a statement that stands in a text. -/
def IsWritten : Stmt → Prop
  | config c | menuconfig c => c.IsWritten
  | choice c => Property.AllWritten true c.properties ∧ ∀ m ∈ c.members, m.IsWritten
  | menu m body => Property.AllWritten false m.properties ∧ AllWritten body
  | ifBlock condition body _ => condition.IsWritten ∧ AllWritten body
  | source _ => True
  | comment c => Property.AllWritten false c.properties

/-- All statements of a block are written. -/
def AllWritten : List Stmt → Prop
  | [] => True
  | s :: ss => s.IsWritten ∧ AllWritten ss

end

theorem allClean_append {es fs : List SExpr} (hes : SExpr.AllClean es) (hfs : SExpr.AllClean fs) :
    SExpr.AllClean (es ++ fs) := by
  rw [SExpr.allClean_iff] at *
  exact List.forall_mem_append.mpr ⟨hes, hfs⟩

mutual

/-- A statement that is written is read back. -/
theorem IsWritten.readsBack : ∀ {s : Stmt}, s.IsWritten → ReadsBack ofSExpr? s.toSExpr s.content
  | config c, h => by
    obtain ⟨hclean, hread⟩ := Config.IsWritten.readsBack h (show SExpr.IsWord "config" by decide)
    refine ⟨hclean, ?_⟩
    rw [toSExpr, Config.toSExpr, ofSExpr?, hread]
    rfl
  | menuconfig c, h => by
    obtain ⟨hclean, hread⟩ := Config.IsWritten.readsBack h (show SExpr.IsWord "menuconfig" by decide)
    refine ⟨hclean, ?_⟩
    rw [toSExpr, Config.toSExpr, ofSExpr?, hread]
    rfl
  | choice c, h => by
    obtain ⟨hproperties, hmembers⟩ := h
    obtain ⟨hclean, hread⟩ := hproperties.readsBack
    obtain ⟨hcleans, hreads⟩ := SExpr.ReadsBack.map fun m hm => (hmembers m hm).readsBack_member
    refine ⟨⟨by decide, allClean_append hclean hcleans⟩, ?_⟩
    rw [toSExpr, ofSExpr?, Property.allOfSExprs_append, hread, allOfSExprs_members, List.append_nil,
      List.filterMap_append, filterMap_properties, hreads]
    rfl
  | menu m body, h => by
    obtain ⟨hproperties, hbody⟩ := h
    obtain ⟨hclean, hread⟩ := hproperties.readsBack
    obtain ⟨hcleans, hreads⟩ := AllWritten.readsBack hbody
    refine ⟨⟨by decide, trivial, allClean_append hclean hcleans⟩, ?_⟩
    rw [toSExpr, StringNode.toSExpr, List.cons_append, ofSExpr?, Property.allOfSExprs_append, hread,
      allOfSExprs_toSExprs, List.append_nil, allOfSExprs_append, hreads]
    rfl
  | ifBlock condition body pos, h => by
    obtain ⟨hcondition, hbody⟩ := h
    obtain ⟨hclean, hread⟩ := hcondition.readsBack
    obtain ⟨hcleans, hreads⟩ := AllWritten.readsBack hbody
    refine ⟨⟨by decide, hclean, hcleans⟩, ?_⟩
    rw [toSExpr, ofSExpr?, hread, hreads]
    rfl
  | source s, h => by
    obtain ⟨kind, path, pos⟩ := s
    have hkind : SExpr.IsWord kind.text := by cases kind <;> decide
    exact ⟨⟨hkind, trivial, trivial⟩, by cases kind <;> rfl⟩
  | comment c, h => by
    obtain ⟨hclean, hread⟩ := Property.AllWritten.readsBack h
    refine ⟨⟨by decide, trivial, hclean⟩, ?_⟩
    rw [toSExpr, StringNode.toSExpr, ofSExpr?, hread]
    rfl

theorem AllWritten.readsBack : ∀ {ss : List Stmt}, AllWritten ss →
    SExpr.AllClean (toSExprs ss) ∧ allOfSExprs (toSExprs ss) = contentAll ss
  | [], _ => ⟨trivial, rfl⟩
  | s :: ss, h => by
    have hs := IsWritten.readsBack h.1
    obtain ⟨hcleans, hreads⟩ := AllWritten.readsBack h.2
    refine ⟨⟨hs.clean, hcleans⟩, ?_⟩
    rw [toSExprs, allOfSExprs, hs.read_eq, hreads]
    rfl

end

end Stmt

/-! ## Files -/

/-- The statements of a file are written. -/
def Root.IsWritten (r : Root) : Prop :=
  Stmt.AllWritten r.statements

/-- A file that is written is read back. -/
theorem Root.IsWritten.readsBack {r : Root} (h : r.IsWritten) : ReadsBack Root.ofSExpr? r.toSExpr r.content := by
  obtain ⟨hclean, hread⟩ := Stmt.AllWritten.readsBack h
  obtain ⟨file, path, mainMenu, statements⟩ := r
  cases mainMenu with
  | none =>
    refine ⟨⟨by decide, hclean⟩, ?_⟩
    have htitle : (Stmt.toSExprs statements).head?.bind MainMenu.ofSExpr? = none := by
      cases statements with
      | nil => rfl
      | cons s ss => exact MainMenu.ofSExpr?_stmt s
    show Root.ofSExpr? (.list "root" (Stmt.toSExprs statements)) = _
    rw [ofSExpr?, htitle, hread]
    rfl
  | some m =>
    have htitle : SExpr.IsWord "mainmenu" := by decide
    refine ⟨⟨by decide, ⟨htitle, trivial, trivial⟩, hclean⟩, ?_⟩
    show Root.ofSExpr? (.list "root" (.list "mainmenu" [.quoted m.title.value] ::
      Stmt.toSExprs statements)) = _
    rw [ofSExpr?, Stmt.allOfSExprs, hread]
    rfl

end KconfigLang
