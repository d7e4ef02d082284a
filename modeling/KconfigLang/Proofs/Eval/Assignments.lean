import KconfigLang.Env
import KconfigLang.Proofs.Eval.Numerals
import KconfigLang.Proofs.Grammar.Printing
import KconfigLang.Proofs.Token.Encoding

/-!
# Assignments

What is assigned to a name is what the name evaluates to. A quoted text is taken as it stands between its outer quotes,
whatever it holds; a literal in an expression doubles its quotes. Both ways the string is the same.

- `Env.lookup_set_self` and `Env.lookup_set_of_ne`: setting a name changes that name only.
- `Env.assigning`: an assignment in place, where the environment is a state.
- `IsName`: the names that a text can have as tokens.
- `assign_name`: what is assigned to such a name.
- `parseExpr_name` and `parseExpr_name_equal`: what a name alone and a comparison with a literal are parsed to.
- `assign_evaluates`: what assignments do.
-/

namespace KconfigLang

/-! ## Environments -/

namespace Env

variable {env : Env} {name other : String} {value : Value}

theorem lookup_put_self (entries : List (String × Value)) : (put name value entries).lookup name = some value := by
  induction entries with
  | nil => exact List.lookup_cons_self
  | cons entry entries ih =>
    obtain ⟨key, old⟩ := entry
    rw [put]
    split
    · exact List.lookup_cons_self
    · rename_i hne
      rw [List.lookup_cons, beq_false_of_ne (Ne.symm hne)]
      exact ih

theorem lookup_put_of_ne (h : other ≠ name) (entries : List (String × Value)) :
    (put name value entries).lookup other = entries.lookup other := by
  induction entries with
  | nil => rw [put, List.lookup_cons, beq_false_of_ne h]
  | cons entry entries ih =>
    obtain ⟨key, old⟩ := entry
    rw [put]
    split
    · rename_i hkey
      rw [List.lookup_cons, List.lookup_cons, hkey, beq_false_of_ne h]
    · rw [List.lookup_cons, List.lookup_cons, ih]

theorem lookup_set_self (env : Env) (name : String) (value : Value) : (env.set name value).lookup name = some value :=
  lookup_put_self env.entries

theorem lookup_set_of_ne (h : other ≠ name) (env : Env) (value : Value) :
    (env.set name value).lookup other = env.lookup other :=
  lookup_put_of_ne h env.entries

/-- An assignment in place: the environment is a state, and a failure leaves the state that it finds. -/
def assigning (text : String) : ExceptT AssignError (StateM Env) Unit :=
  match Text.splitOnce? '=' text.toList with
  | none => throw (.noEquals text)
  | some (name, value) => do
    if Text.isBlank name then throw (.noName text)
    modify (·.set (String.ofList (Text.trim name)) (assignedValue (Text.trim value)))

/-- It is the assignment. -/
theorem run_assigning (env : Env) (text : String) : (assigning text).run env =
    match env.assign text with
    | .ok env' => (.ok (), env')
    | .error cause => (.error cause, env) := by
  unfold assigning assign readAssignment
  cases Text.splitOnce? '=' text.toList with
  | none => rfl
  | some parts =>
    obtain ⟨name, value⟩ := parts
    by_cases hname : Text.isBlank name = true
    · simp only [hname]
      rfl
    · simp only [hname]
      rfl

end Env

/-! ## Names -/

/-- A text has a name as a token. -/
def IsName (name : String) : Prop :=
  ∃ cs, ∃ item ∈ (Cursor.ofChars cs).items, item.content = .ok (.ident name)

theorem IsName.readable {name : String} (h : IsName name) : (Token.ident name).Readable := by
  obtain ⟨cs, item, hitem, hcontent⟩ := h
  exact Cursor.readable_of_mem_items hitem hcontent

/-- A name alone is one token. -/
theorem tokenize_name {name : String} (h : (Token.ident name).Readable) (loc : Locator) :
    ∃ pos, tokenize loc name.toList = .ok [⟨.ident name, pos⟩] := by
  have htext : spacedText [.ident name] = name := by simp [spacedText, Token.text]
  have hword : ∀ t ∈ [Token.ident name], t.Readable ∧ t.isOfExpr = true := List.forall_mem_singleton.mpr ⟨h, rfl⟩
  obtain ⟨us, htokens, hsame⟩ := tokenize_spacedText hword loc
  obtain ⟨⟨_, pos⟩, us, rfl, rfl, hnone⟩ := List.map_eq_cons_iff.mp hsame
  obtain rfl := List.map_eq_nil_iff.mp hnone
  rw [htext] at htokens
  exact ⟨pos, htokens⟩

theorem IsName.of_readable {name : String} (h : (Token.ident name).Readable) : IsName name := by
  obtain ⟨pos, htokens⟩ := tokenize_name h (.ofChars .root [])
  exact ⟨name.toList, exists_item_of_mem htokens List.mem_cons_self⟩

theorem not_white_of_isWordChar {c : Char} (h : Lexeme.isWordChar c = true) : Text.isWhiteSpace c = false := by
  rcases (Bool.or_eq_true _ _).mp h with h | h
  · exact not_white_of_alphanum h
  · rw [of_decide_eq_true h]
    decide

/-- The characters of a name. -/
theorem IsName.chars {name : String} (h : IsName name) :
    name.toList ≠ [] ∧ ∀ c ∈ name.toList, Lexeme.isWordChar c = true := by
  obtain ⟨-, -, c, cs, hname, hc, hcs⟩ := h.readable
  rw [hname]
  refine ⟨List.cons_ne_nil c cs, List.forall_mem_cons.mpr ⟨?_, hcs⟩⟩
  simp [Lexeme.isWordChar, Char.isAlphanum, hc]

/-! ## Reading assignments -/

theorem unquoted?_quoted (cs : List Char) : unquoted? ('"' :: (cs ++ ['"'])) = some cs := by
  simp [unquoted?]

/-- A text in quotes is taken as it stands between them. -/
theorem assignedValue_quoted (s : String) : assignedValue (Text.trim ("\"" ++ s ++ "\"").toList) = .string s := by
  have htext : ("\"" ++ s ++ "\"").toList = '"' :: (s.toList ++ ['"']) := by simp
  have hlast : ('"' :: (s.toList ++ ['"'])).getLast? = some '"' := by
    rw [← List.cons_append, List.getLast?_concat]
  have htrim : Text.trim ('"' :: (s.toList ++ ['"'])) = '"' :: (s.toList ++ ['"']) := by
    refine Text.trim_eq_self (fun c hc => ?_) fun c hc => ?_
    · obtain rfl := Option.some.inj hc
      decide
    · obtain rfl := Option.some.inj (hlast.symm.trans hc)
      decide
  rw [htext, htrim, assignedValue, unquoted?_quoted]
  exact congrArg Value.string String.ofList_toList

theorem assignedValue_tristate (t : Tristate) : assignedValue (Text.trim t.text.toList) = .tristate t := by
  cases t <;> decide

/-- What is assigned to a name is behind the first equality sign. -/
theorem assign_name {name : String} (h : IsName name) (env : Env) (value : String) :
    env.assign (name ++ "=" ++ value) = .ok (env.set name (assignedValue (Text.trim value.toList))) := by
  obtain ⟨hne, hchars⟩ := h.chars
  have hwhite : ∀ c ∈ name.toList, Text.isWhiteSpace c = false := fun c hc => not_white_of_isWordChar (hchars c hc)
  have hequal : '=' ∉ name.toList := fun hmem => absurd (hchars '=' hmem) (by decide)
  have htext : (name ++ "=" ++ value).toList = name.toList ++ '=' :: value.toList := by simp
  have hblank : ¬ Text.isBlank name.toList = true := by
    obtain ⟨c, cs, hname⟩ := List.exists_cons_of_ne_nil hne
    intro hall
    have hc := List.all_eq_true.mp hall c (hname ▸ List.mem_cons_self)
    exact absurd (hc.symm.trans (hwhite c (hname ▸ List.mem_cons_self))) (by decide)
  have htrim : Text.trim name.toList = name.toList :=
    Text.trim_eq_self (fun c hc => hwhite c (List.mem_of_mem_head? hc)) fun c hc => hwhite c (List.mem_of_getLast? hc)
  rw [Env.assign, readAssignment, htext, Text.splitOnce?_append hequal]
  simp only [hblank, htrim, String.ofList_toList]
  rfl

/-! ## Expressions over a name -/

section Parsing

open KconfigLang.Derivation

variable {name s : String}

/-- A name alone is a symbol. -/
theorem parseExpr_name (h : IsName name) : ∃ pos, parseExpr name = .ok (.symbol ⟨name, pos⟩) := by
  obtain ⟨pos, htokens⟩ := tokenize_name h.readable (.ofChars .root name.toList)
  exact ⟨pos, parseExpr_eq_ok_iff.mpr
    ⟨.single (.single (.single (.leaf (.symbol ⟨name, pos⟩)))), htokens, rfl⟩⟩

/-- A name and an encoded string are compared. -/
theorem parseExpr_name_equal (h : IsName name) (hs : '\n' ∉ s.toList) : ∃ pos pos',
    parseExpr (name ++ " = " ++ Literal.encode s) =
      .ok (.join (.symbol ⟨name, pos⟩) .equal (.string ⟨s, Literal.encode s, pos'⟩)) := by
  have hliteral : (Token.string s (Literal.encode s)).Readable :=
    readable_of_tokenize (tokenize_encode (.ofChars .root []) hs) _ List.mem_cons_self
  have htext : spacedText [.ident name, .mark .equal, .string s (Literal.encode s)] =
      name ++ " = " ++ Literal.encode s := by
    refine String.toList_inj.mp ?_
    simp [toList_spacedText, spacedPieces, Token.piece, Token.text, Mark.text]
  have hwords : ∀ t ∈ [Token.ident name, .mark .equal, .string s (Literal.encode s)],
      t.Readable ∧ t.isOfExpr = true := by
    simp only [List.forall_mem_cons]
    exact ⟨⟨h.readable, rfl⟩, ⟨trivial, rfl⟩, ⟨hliteral, rfl⟩, List.forall_mem_nil _⟩
  obtain ⟨us, htokens, hsame⟩ :=
    tokenize_spacedText hwords (Locator.ofChars .root (name ++ " = " ++ Literal.encode s).toList)
  obtain ⟨⟨_, p⟩, us, rfl, rfl, hrest⟩ := List.map_eq_cons_iff.mp hsame
  obtain ⟨⟨_, q⟩, us, rfl, rfl, hlast⟩ := List.map_eq_cons_iff.mp hrest
  obtain ⟨⟨_, r⟩, us, rfl, rfl, hnone⟩ := List.map_eq_cons_iff.mp hlast
  obtain rfl := List.map_eq_nil_iff.mp hnone
  rw [htext] at htokens
  exact ⟨p, r, parseExpr_eq_ok_iff.mpr ⟨.single (.single (.compare (.leaf (.symbol ⟨name, p⟩)) .equal q
    (.leaf (.literal (.string s (Literal.encode s)) r)))), htokens, rfl⟩⟩

end Parsing

theorem eval_symbol_set {check : Checking} (env : Env) (name : String) (value : Value) (pos : Span) :
    eval check (env.set name value).lookup (.symbol ⟨name, pos⟩) = .ok value := by
  rw [eval, Env.lookup_set_self]
  rfl

/-- A symbol with a string for its value is equal to a literal for that string. -/
theorem eval_equal_self {check : Checking} {lookup : String → Option Value} {lhs rhs : Expr} {s : String}
    (hl : eval check lookup lhs = .ok (.string s)) (hr : eval check lookup rhs = .ok (.string s)) :
    eval check lookup (.join lhs .equal rhs) = .ok (.tristate .yes) := by
  rw [Expr.join, eval_comparison_strings (by decide) hl hr, compareText_eq_iff_read.mpr (.inl rfl)]
  rfl

/-- **Assignments**: a string in quotes, assigned to a name, is what the name evaluates to, and what it is equal to if
the string is written as a literal, whether or not kinds are checked; no literal is written with a newline. A letter for
a tristate is assigned as that tristate. Other names keep their values. An assignment in place makes the same
environment, and leaves the environment as it is where it fails. -/
theorem assign_evaluates (env : Env) {name : String} (h : IsName name) :
    (∀ s : String, ∃ env', env.assign (name ++ "=" ++ ("\"" ++ s ++ "\"")) = .ok env' ∧
      (∃ e, parseExpr name = .ok e ∧ ∀ check, eval check env'.lookup e = .ok (.string s)) ∧
      ('\n' ∉ s.toList → ∃ e, parseExpr (name ++ " = " ++ Literal.encode s) = .ok e ∧
        ∀ check, eval check env'.lookup e = .ok (.tristate .yes)) ∧
      ∀ other, other ≠ name → env'.lookup other = env.lookup other) ∧
    (∀ t : Tristate, ∃ env', env.assign (name ++ "=" ++ t.text) = .ok env' ∧
      env'.lookup name = some (.tristate t) ∧
      (∃ e, parseExpr name = .ok e ∧ ∀ check, eval check env'.lookup e = .ok (.tristate t)) ∧
      ∀ other, other ≠ name → env'.lookup other = env.lookup other) ∧
    ∀ text, (∀ env', env.assign text = .ok env' → (Env.assigning text).run env = (.ok (), env')) ∧
      ∀ cause, env.assign text = .error cause → (Env.assigning text).run env = (.error cause, env) := by
  have hothers (value : Value) : ∀ other, other ≠ name → (env.set name value).lookup other = env.lookup other :=
    fun other hne => Env.lookup_set_of_ne hne env value
  have hsymbol (value : Value) : ∃ e, parseExpr name = .ok e ∧
      ∀ check, eval check (env.set name value).lookup e = .ok value := by
    obtain ⟨pos, hparse⟩ := parseExpr_name h
    exact ⟨_, hparse, fun check => eval_symbol_set env name value pos⟩
  refine ⟨fun s => ⟨env.set name (.string s), ?_, hsymbol _, fun hs => ?_, hothers _⟩,
    fun t => ⟨env.set name (.tristate t), ?_, Env.lookup_set_self .., hsymbol _, hothers _⟩,
    fun text => ⟨fun env' hassign => ?_, fun cause hassign => ?_⟩⟩
  · rw [assign_name h, assignedValue_quoted]
  · obtain ⟨pos, pos', hparse⟩ := parseExpr_name_equal h hs
    exact ⟨_, hparse, fun check => eval_equal_self (eval_symbol_set env name _ pos) rfl⟩
  · rw [assign_name h, assignedValue_tristate]
  · rw [Env.run_assigning, hassign]
  · rw [Env.run_assigning, hassign]

/-- An environment in which `A` is `m`. -/
def moduleEnv : Env :=
  Env.empty.set "A" (.tristate .module)

/-- Quotes, a group, an equality sign and digits are all assigned as they are. -/
theorem assign_evaluates_quotes :
    (∃ env', moduleEnv.assign ("yes" ++ "=" ++ ("\"" ++ "\" =[\"000A\"] 0x8\"" ++ "\"")) = .ok env' ∧
      (∃ e, parseExpr "yes" = .ok e ∧ ∀ check, eval check env'.lookup e = .ok (.string "\" =[\"000A\"] 0x8\"")) ∧
      (∃ e, parseExpr "yes = \"\"\" =[\"\"000A\"\"] 0x8\"\"\"" = .ok e ∧
        ∀ check, eval check env'.lookup e = .ok (.tristate .yes)) ∧
      env'.lookup "A" = some (.tristate .module)) ∧
    (∃ env', moduleEnv.assign "yes=n" = .ok env' ∧ env'.lookup "A" = some (.tristate .module)) ∧
    (Env.assigning "yes").run moduleEnv = (.error (.noEquals "yes"), moduleEnv) := by
  have hchars : ∀ c ∈ ['e', 's'], Lexeme.isWordChar c = true := List.all_eq_true.mp (by decide)
  have hname : IsName "yes" := .of_readable ⟨by decide, by decide, 'y', ['e', 's'], by decide, by decide, hchars⟩
  obtain ⟨hquoted, htristate, hfail⟩ := assign_evaluates moduleEnv hname
  obtain ⟨env', hassign, hsymbol, hequal, hother⟩ := hquoted "\" =[\"000A\"] 0x8\""
  obtain ⟨env'', hassign', -, -, hother'⟩ := htristate .no
  have htext : "yes" ++ " = " ++ Literal.encode "\" =[\"000A\"] 0x8\"" = "yes = \"\"\" =[\"\"000A\"\"] 0x8\"\"\"" := by
    decide +kernel
  refine ⟨⟨env', hassign, hsymbol, ?_, hother "A" (by decide)⟩, ⟨env'', hassign', hother' "A" (by decide)⟩,
    (hfail "yes").2 _ (by decide)⟩
  rw [← htext]
  exact hequal (by decide)

end KconfigLang
