import KconfigLang.Proofs.Grammar.ErrorPlace

/-!
# Blocks among tokens

In the tokens of a file every block is closed by the terminator of its kind, and what begins a file leaves some blocks
open. The construct that an error names is told by these open blocks and by the last statement keyword before it,
although the stack that keeps the open blocks drops whatever is on top of it.

- `Bracketed`: tokens in which all blocks are closed, each by its own terminator.
- `LeavesOpen`: the blocks that are open behind some tokens.
- `Bracketed.exists_opened`: what begins such tokens, and what a terminator in them closes.
- `File.bracketed`: the tokens of a file are such tokens.
- `Names`: the construct that an error behind some tokens is in.
- `parse_error_production`: an error names it.
-/

namespace KconfigLang

namespace Token

/-- The block that a token opens. -/
def opens? : Token → Option Construct
  | .keyword .menu => some .menu
  | .keyword .choice => some .choice
  | .keyword .ifBlock => some .ifBlock
  | _ => none

/-- The block that a token terminates. -/
def closes? : Token → Option Construct
  | .keyword .endmenu => some .menu
  | .keyword .endchoice => some .choice
  | .keyword .endif => some .ifBlock
  | _ => none

/-- The construct that a token begins if it is the keyword of a statement. -/
def begins? : Token → Option Construct
  | .keyword .mainmenu => some .mainmenu
  | .keyword .config => some .configEntry
  | .keyword .menuconfig => some .menuconfigEntry
  | .keyword .comment => some .comment
  | .keyword .source | .keyword .rsource | .keyword .osource | .keyword .orsource => some .source
  | t => t.opens?

variable {t : Token} {b : Construct}

theorem closes?_of_opens? (h : t.opens? = some b) : t.closes? = none := by
  unfold opens? at h
  split at h
  all_goals first | rfl | cases h

theorem begins?_of_opens? (h : t.opens? = some b) : t.begins? = some b := by
  unfold opens? at h
  split at h
  all_goals first | exact h | cases h

end Token

/-! ## Open blocks -/

/-- Tokens in which all blocks are closed, each by the terminator of its kind. -/
inductive Bracketed : List Token → Prop
  | nil : Bracketed []
  | plain {t : Token} {ts : List Token} (ho : t.opens? = none) (hc : t.closes? = none) (h : Bracketed ts) :
    Bracketed (t :: ts)
  | block {o c : Token} {b : Construct} {body ts : List Token} (ho : o.opens? = some b) (hc : c.closes? = some b)
    (hbody : Bracketed body) (h : Bracketed ts) : Bracketed (o :: (body ++ c :: ts))

/-- The blocks that are open behind some tokens, the innermost first: behind the token that opened it all blocks are
closed. -/
inductive LeavesOpen : List Token → List Construct → Prop
  | nil {ts : List Token} (h : Bracketed ts) : LeavesOpen ts []
  | block {o : Token} {b : Construct} {bs : List Construct} {ts us : List Token} (h : LeavesOpen ts bs)
    (ho : o.opens? = some b) (hus : Bracketed us) : LeavesOpen (ts ++ o :: us) (b :: bs)

section Blocks

variable {t o : Token} {b : Construct} {ts us : List Token} {bs : List Construct}

theorem Bracketed.append (h : Bracketed ts) (h' : Bracketed us) : Bracketed (ts ++ us) := by
  induction h with
  | nil => exact h'
  | plain ho hc _ ih => exact .plain ho hc ih
  | block ho hc hbody _ _ ih =>
    rw [List.cons_append, List.append_assoc, List.cons_append]
    exact .block ho hc hbody ih

theorem LeavesOpen.prepend (h : LeavesOpen us bs) (hts : Bracketed ts) : LeavesOpen (ts ++ us) bs := by
  induction h with
  | nil h => exact .nil (hts.append h)
  | block _ ho hus ih =>
    rw [← List.append_assoc]
    exact .block ih ho hus

/-- What is open within a block is open behind the token that opens it, and so is that block. -/
theorem LeavesOpen.within (h : LeavesOpen us bs) (ho : o.opens? = some b) : LeavesOpen (o :: us) (bs ++ [b]) := by
  induction h with
  | nil h => exact .block (.nil .nil) ho h
  | block _ ho' hus ih => exact .block ih ho' hus

/-- What begins bracketed tokens leaves some blocks open, and a terminator behind it closes the innermost of them. -/
theorem Bracketed.exists_opened (h : Bracketed ts) : ∀ us vs, ts = us ++ vs →
    ∃ bs, LeavesOpen us bs ∧ ∀ t ∈ vs.head?, ∀ b, t.closes? = some b → bs.head? = some b := by
  induction h with
  | nil =>
    intro us vs hts
    obtain ⟨rfl, rfl⟩ := List.append_eq_nil_iff.mp hts.symm
    exact ⟨[], .nil .nil, nofun⟩
  | @plain t ts ho hc h ih =>
    intro us vs hts
    rcases List.cons_eq_append_iff.mp hts with ⟨rfl, rfl⟩ | ⟨us, rfl, rfl⟩
    · refine ⟨[], .nil .nil, fun u hu b hb => ?_⟩
      obtain rfl := Option.some.inj hu
      cases hc.symm.trans hb
    · obtain ⟨bs, hopened, hhead⟩ := ih us vs rfl
      exact ⟨bs, hopened.prepend (.plain ho hc .nil), hhead⟩
  | @block o c b body ts ho hc hbody h ihbody ih =>
    intro us vs hts
    rcases List.cons_eq_append_iff.mp hts with ⟨rfl, rfl⟩ | ⟨us, rfl, hts⟩
    · refine ⟨[], .nil .nil, fun u hu b' hb' => ?_⟩
      obtain rfl := Option.some.inj hu
      cases (Token.closes?_of_opens? ho).symm.trans hb'
    have hstop : ∃ bs, LeavesOpen (o :: body) bs ∧
        ∀ t ∈ (c :: ts).head?, ∀ b, t.closes? = some b → bs.head? = some b := by
      refine ⟨[b], .block (.nil .nil) ho hbody, fun u hu b' hb' => ?_⟩
      obtain rfl := Option.some.inj hu
      exact hc.symm.trans hb'
    rcases List.append_eq_append_iff.mp (List.cons.inj hts).2 with ⟨ws, rfl, hws⟩ | ⟨ws, rfl, rfl⟩
    -- The tokens reach to the terminator of the block or behind it.
    · rcases List.cons_eq_append_iff.mp hws with ⟨rfl, rfl⟩ | ⟨ws, rfl, rfl⟩
      · rwa [List.append_nil]
      · obtain ⟨bs, hopened, hhead⟩ := ih ws vs rfl
        have hblock : Bracketed (o :: (body ++ [c])) := .block ho hc hbody .nil
        have hbehind := hopened.prepend hblock
        rw [List.cons_append, List.append_assoc, List.singleton_append] at hbehind
        exact ⟨bs, hbehind, hhead⟩
    -- They end within the block.
    · cases ws with
      | nil => rwa [List.append_nil] at hstop
      | cons w ws =>
        obtain ⟨bs, hopened, hhead⟩ := ihbody us (w :: ws) rfl
        refine ⟨bs ++ [b], hopened.within ho, fun u hu b' hb' => ?_⟩
        rw [List.head?_append, hhead u hu b' hb', Option.some_or]

end Blocks

/-! ## Blocks in derivations -/

namespace Derivation

/-- All blocks among some tokens are closed. -/
def ClosesBlocks (ts : List Lexed) : Prop :=
  Bracketed (ts.map Lexed.token)

namespace ClosesBlocks

variable {ts us : List Lexed}

theorem nil : ClosesBlocks [] :=
  Bracketed.nil

theorem cons {t : Lexed} (h : ClosesBlocks ts) (ho : t.token.opens? = none) (hc : t.token.closes? = none) :
    ClosesBlocks (t :: ts) :=
  .plain ho hc h

theorem append (h : ClosesBlocks ts) (h' : ClosesBlocks us) : ClosesBlocks (ts ++ us) := by
  rw [ClosesBlocks, List.map_append]
  exact Bracketed.append h h'

theorem block {o c : Lexed} {b : Construct} (h : ClosesBlocks ts) (ho : o.token.opens? = some b)
    (hc : c.token.closes? = some b) : ClosesBlocks (o :: (ts ++ [c])) := by
  rw [ClosesBlocks, List.map_cons, List.map_append]
  exact .block ho hc h .nil

theorem flatMap {D : Type} {tokens : D → List Lexed} (h : ∀ d, ClosesBlocks (tokens d)) (ds : List D) :
    ClosesBlocks (ds.flatMap tokens) := by
  induction ds with
  | nil => exact nil
  | cons d ds ih =>
    rw [List.flatMap_cons]
    exact (h d).append ih

end ClosesBlocks

theorem blocks_of_isInner {t : Token} (h : isInner t = true) : t.opens? = none ∧ t.closes? = none := by
  rcases t with word | _ | _ | _ | _ | _ | _ | _
  · cases word <;> first | exact ⟨rfl, rfl⟩ | exact absurd h Bool.false_ne_true
  all_goals exact ⟨rfl, rfl⟩

theorem blocks_of_startsType {t : Token} (h : startsType t = true) : t.opens? = none ∧ t.closes? = none := by
  unfold startsType at h
  split at h
  all_goals first | exact ⟨rfl, rfl⟩ | exact absurd h Bool.false_ne_true

theorem AllTokens.closesBlocks {ts : List Lexed} (h : AllInner ts) : ClosesBlocks ts := by
  induction ts with
  | nil => exact .nil
  | cons t ts ih =>
    obtain ⟨ht, hts⟩ := List.forall_mem_cons.mp h
    obtain ⟨ho, hc⟩ := blocks_of_isInner ht
    exact (ih hts).cons ho hc

theorem IsTyped.closesBlocks {ts : List Lexed} {start : Nat} (h : IsTyped ts start) : ClosesBlocks ts := by
  obtain ⟨t, rest, rfl, ht, -, hrest⟩ := h
  obtain ⟨ho, hc⟩ := blocks_of_startsType ht
  exact hrest.closesBlocks.cons ho hc

theorem EntryLine.closesBlocks (d : EntryLine) : ClosesBlocks (EntryLine.phrase.tokens d) := by
  rcases d.tokens_cases with ⟨-, hinner⟩ | ⟨decl, -, htyped⟩
  · exact hinner.closesBlocks
  · exact htyped.closesBlocks

theorem ChoiceLine.closesBlocks (d : ChoiceLine) : ClosesBlocks (ChoiceLine.phrase.tokens d) := by
  rcases d.tokens_cases with hinner | ⟨start, htyped⟩
  · exact hinner.closesBlocks
  · exact htyped.closesBlocks

theorem closesBlocks_entry {word : Keyword} (ho : (Token.keyword word).opens? = none)
    (hc : (Token.keyword word).closes? = none) (d : Entry) : ClosesBlocks ((entryPhrase word).tokens d) :=
  ((ClosesBlocks.flatMap EntryLine.closesBlocks d.lines).cons rfl rfl).cons ho hc

theorem closesBlocks_choice (d : ChoiceBlock) : ClosesBlocks (choicePhrase.tokens d) := by
  have hmembers : ClosesBlocks ((entryPhrase .config).list.tokens (d.first :: d.more)) :=
    .flatMap (closesBlocks_entry rfl rfl) _
  have hbody := (ClosesBlocks.flatMap ChoiceLine.closesBlocks d.lines).append hmembers
  have hblock := hbody.block (o := ⟨.keyword .choice, d.pos⟩) (c := ⟨.keyword .endchoice, d.stop⟩) rfl rfl
  rwa [List.append_assoc] at hblock

mutual

theorem Statement.closesBlocks : ∀ d : Statement, ClosesBlocks d.tokens
  | .config d => closesBlocks_entry rfl rfl d
  | .menuconfig d => closesBlocks_entry rfl rfl d
  | .choice d => closesBlocks_choice d
  | .comment d => ((allTokens_list inner_depends d.lines).closesBlocks.cons rfl rfl).cons rfl rfl
  | .menu pos title lines body stop => by
    have hhead : ClosesBlocks (stringToken title :: MenuLine.phrase.list.tokens lines) :=
      (allTokens_list MenuLine.inner lines).closesBlocks.cons rfl rfl
    have hblock := (hhead.append (Statement.closesBlocks_all body)).block
      (o := ⟨.keyword .menu, pos⟩) (c := ⟨.keyword .endmenu, stop⟩) rfl rfl
    rwa [List.cons_append, List.cons_append, List.append_assoc] at hblock
  | .ifBlock pos cond body stop => by
    have hblock := (cond.inner.closesBlocks.append (Statement.closesBlocks_all body)).block
      (o := ⟨.keyword .ifBlock, pos⟩) (c := ⟨.keyword .endif, stop⟩) rfl rfl
    rwa [List.append_assoc] at hblock
  | .source d => by
    have hpath : ClosesBlocks [stringToken d.path] := ClosesBlocks.nil.cons rfl rfl
    refine hpath.cons ?_ ?_ <;> cases d.kind <;> rfl

theorem Statement.closesBlocks_all : ∀ ds : List Statement, ClosesBlocks (tokensAll ds)
  | [] => .nil
  | d :: ds => d.closesBlocks.append (Statement.closesBlocks_all ds)

end

theorem File.bracketed (id : FileId) (d : File) : Bracketed (((File.phrase id).tokens d).map Lexed.token) := by
  have hstatements := Statement.closesBlocks_all d.statements
  rw [Statement.tokensAll_eq] at hstatements
  have htitle : ClosesBlocks (titlePhrase.option.tokens d.title) := by
    cases d.title with
    | none => exact .nil
    | some _ => exact (ClosesBlocks.nil.cons rfl rfl).cons rfl rfl
  exact htitle.append hstatements

end Derivation

/-! ## The stack of open blocks -/

namespace Nesting

variable {n : Nesting} {t : Token} {b : Construct} {ts : List Token} {bs : List Construct}

/-- The nesting behind some tokens. -/
def run (n : Nesting) (ts : List Token) : Nesting :=
  ts.foldl step n

@[simp] theorem run_nil (n : Nesting) : n.run [] = n := rfl

@[simp] theorem run_cons (n : Nesting) (t : Token) (ts : List Token) : n.run (t :: ts) = (n.step t).run ts := rfl

theorem run_append (n : Nesting) (ts us : List Token) : n.run (ts ++ us) = (n.run ts).run us :=
  List.foldl_append

theorem step_opens (h : t.opens? = some b) : n.step t = n.push b := by
  unfold Token.opens? at h
  split at h
  all_goals first | cases h; rfl | cases h

theorem step_closes (h : t.closes? = some b) : n.step t = n.pop := by
  unfold Token.closes? at h
  split at h
  all_goals first | rfl | cases h

theorem step_begins (h : t.begins? = some b) : (n.step t).last = some b := by
  unfold Token.begins? at h
  split at h
  case h_9 => rw [step_opens h]; rfl
  all_goals cases h; rfl

theorem step_blocks (ho : t.opens? = none) (hc : t.closes? = none) : (n.step t).blocks = n.blocks := by
  unfold step
  split
  all_goals
    first | rfl | exact absurd ho (Option.some_ne_none _) | exact absurd hc (Option.some_ne_none _)

theorem step_eq_self (hb : t.begins? = none) (hc : t.closes? = none) : n.step t = n := by
  unfold step
  split
  all_goals
    first | rfl | exact absurd hb (Option.some_ne_none _) | exact absurd hc (Option.some_ne_none _)

/-- Behind bracketed tokens the same blocks are open as before them. -/
theorem run_bracketed (h : Bracketed ts) (n : Nesting) : (n.run ts).blocks = n.blocks := by
  induction h generalizing n with
  | nil => rfl
  | plain ho hc _ ih => rw [run_cons, ih, step_blocks ho hc]
  | block ho hc _ _ ihbody ih =>
    rw [run_cons, run_append, run_cons, ih, step_closes hc, step_opens ho, pop, ihbody, push, List.tail_cons]

/-- The stack holds the blocks that are open. -/
theorem run_opened (h : LeavesOpen ts bs) : ((⟨[], none⟩ : Nesting).run ts).blocks = bs := by
  induction h with
  | nil h => exact run_bracketed h _
  | block _ ho hus ih => rw [run_append, run_cons, run_bracketed hus, step_opens ho, push, ih]

theorem run_eq_self (h : ∀ t ∈ ts, t.begins? = none ∧ t.closes? = none) : n.run ts = n := by
  induction ts generalizing n with
  | nil => rfl
  | cons t ts ih =>
    obtain ⟨⟨hb, hc⟩, hts⟩ := List.forall_mem_cons.mp h
    rw [run_cons, step_eq_self hb hc, ih hts]

/-- Where the innermost open block is named, it stays named until a statement begins. -/
theorem run_settled (h : ∀ t ∈ ts, t.begins? = none) (hn : n.last = n.blocks.head?) :
    (n.run ts).last = (n.run ts).blocks.head? := by
  induction ts generalizing n with
  | nil => exact hn
  | cons t ts ih =>
    obtain ⟨hb, hts⟩ := List.forall_mem_cons.mp h
    refine ih hts ?_
    cases hc : t.closes? with
    | none => rw [step_eq_self hb hc, hn]
    | some b => rw [step_closes hc]; rfl

/-- Behind a terminator the innermost open block is named until a statement begins. -/
theorem run_closed (h : ∀ t ∈ ts, t.begins? = none) (hc : ∃ t ∈ ts, t.closes?.isSome = true) :
    (n.run ts).last = (n.run ts).blocks.head? := by
  obtain ⟨t, ht, hsome⟩ := hc
  obtain ⟨b, hb⟩ := Option.isSome_iff_exists.mp hsome
  obtain ⟨us, vs, rfl⟩ := List.append_of_mem ht
  rw [run_append, run_cons]
  refine run_settled (fun u hu => h u (by simp [hu])) ?_
  rw [step_closes hb]
  rfl

end Nesting

/-! ## What an error names -/

/-- The construct that an error behind some tokens is in, where some blocks are open: at the end of the text the
innermost open block, if there is one; and otherwise the construct of the last statement keyword, or the innermost open
block if a terminator stands behind that keyword. -/
inductive Names : List Token → List Construct → Bool → Option Construct → Prop
  | brokenOff {ts : List Token} {b : Construct} {bs : List Construct} : Names ts (b :: bs) true (some b)
  | begun {us vs : List Token} {t : Token} {c : Construct} {bs : List Construct} {atEnd : Bool}
    (h : atEnd = false ∨ bs = []) (ht : t.begins? = some c)
    (hvs : ∀ u ∈ vs, u.begins? = none ∧ u.closes? = none) : Names (us ++ t :: vs) bs atEnd (some c)
  | closed {us vs : List Token} {t : Token} {bs : List Construct} {atEnd : Bool}
    (h : atEnd = false ∨ bs = []) (ht : t.begins?.isSome = true) (hvs : ∀ u ∈ vs, u.begins? = none)
    (hc : ∃ u ∈ vs, u.closes?.isSome = true) : Names (us ++ t :: vs) bs atEnd bs.head?
  | outside {ts : List Token} {atEnd : Bool} (h : ∀ t ∈ ts, t.begins? = none) : Names ts [] atEnd none

/-- Some tokens have no statement keyword or a last one. -/
theorem exists_last_begins (ts : List Token) : (∀ t ∈ ts, t.begins? = none) ∨
    ∃ us t vs c, ts = us ++ t :: vs ∧ t.begins? = some c ∧ ∀ u ∈ vs, u.begins? = none := by
  induction ts with
  | nil => exact .inl (List.forall_mem_nil _)
  | cons t ts ih =>
    rcases ih with hts | ⟨us, u, vs, c, rfl, hu, hvs⟩
    · cases hb : t.begins? with
      | none => exact .inl (List.forall_mem_cons.mpr ⟨hb, hts⟩)
      | some c => exact .inr ⟨[], t, ts, c, rfl, hb, hts⟩
    · exact .inr ⟨t :: us, u, vs, c, rfl, hu, hvs⟩

theorem LeavesOpen.eq_nil {ts : List Token} {bs : List Construct} (h : LeavesOpen ts bs)
    (hts : ∀ t ∈ ts, t.begins? = none) : bs = [] := by
  cases h with
  | nil _ => rfl
  | block _ ho _ =>
    have hb := hts _ (List.mem_append_right _ List.mem_cons_self)
    cases hb.symm.trans (Token.begins?_of_opens? ho)

/-- The construct that the stack keeps beside the open blocks is named where it is asked for. -/
theorem names_last {ts : List Token} {bs : List Construct} {atEnd : Bool} (h : LeavesOpen ts bs)
    (hend : atEnd = false ∨ bs = []) : Names ts bs atEnd ((⟨[], none⟩ : Nesting).run ts).last := by
  have hblocks := Nesting.run_opened h
  rcases exists_last_begins ts with hts | ⟨us, t, vs, c, rfl, ht, hvs⟩
  · obtain rfl := h.eq_nil hts
    rw [Nesting.run_settled hts rfl, hblocks]
    exact .outside hts
  · by_cases hc : ∃ u ∈ vs, u.closes?.isSome = true
    · rw [Nesting.run_append, Nesting.run_cons] at hblocks ⊢
      rw [Nesting.run_closed hvs hc, hblocks]
      exact .closed hend (by rw [ht]; rfl) hvs hc
    · have hnone : ∀ u ∈ vs, u.begins? = none ∧ u.closes? = none := fun u hu =>
        ⟨hvs u hu, Option.not_isSome_iff_eq_none.mp fun hsome => hc ⟨u, hu, hsome⟩⟩
      rw [Nesting.run_append, Nesting.run_cons, Nesting.run_eq_self hnone, Nesting.step_begins ht]
      exact .begun hend ht hnone

/-- In a list of tokens one behind the other those that start before a byte are the first ones. -/
theorem takeWhile_start {ts : List Lexed} (h : ts.Pairwise (·.span.start < ·.span.start)) (offset : Nat) :
    (ts.takeWhile (·.span.start < offset)).map Lexed.token = tokensBefore ts offset := by
  unfold tokensBefore
  induction ts with
  | nil => rfl
  | cons t ts ih =>
    obtain ⟨ht, hts⟩ := List.pairwise_cons.mp h
    by_cases hlt : t.span.start < offset
    · simp only [List.takeWhile_cons, List.filter_cons, hlt, decide_true, if_true, List.map_cons, ih hts]
    · have hnone : (t :: ts).filter (·.span.start < offset) = [] := by
        refine List.filter_eq_nil_iff.mpr (List.forall_mem_cons.mpr ⟨by simpa using hlt, fun u hu => ?_⟩)
        have hbehind := ht u hu
        simp only [decide_eq_true_eq]
        omega
      simp only [List.takeWhile_cons, hlt, decide_false, Bool.false_eq_true, if_false, hnone]

/-- The construct around an error is named. -/
theorem names_enclosing? {ts : List Lexed} {offset : Nat} {bs : List Construct} {atEnd : Bool}
    (hts : ts.Pairwise (·.span.start < ·.span.start)) (h : LeavesOpen (tokensBefore ts offset) bs) :
    Names (tokensBefore ts offset) bs atEnd (enclosing? ts offset atEnd) := by
  have hrun : (ts.takeWhile (·.span.start < offset)).foldl (fun (n : Nesting) t => n.step t.token) ⟨[], none⟩ =
      (⟨[], none⟩ : Nesting).run (tokensBefore ts offset) := by
    rw [← takeWhile_start hts, Nesting.run, List.foldl_map]
  rw [enclosing?, hrun, Nesting.run_opened h]
  cases atEnd with
  | false => exact names_last h (.inl rfl)
  | true =>
    cases bs with
    | nil => exact names_last h (.inr rfl)
    | cons b bs => exact .brokenOff

/-- All errors name the construct around them. -/
theorem production_eq {id : FileId} {loc : Locator} {ts : List Lexed} {e : ParseError}
    (h : (Grammar.file id).parse loc ts = .error e) :
    e.production = enclosing? ts e.span.start e.found.isNone := by
  rcases Derivation.parse_error_cases h with ⟨_, _, _, _, _, _, rfl⟩ | ⟨_, _, _, _, _, _, rfl⟩
  · exact congrArg (enclosing? ts _) Option.isNone_map.symm
  · exact congrArg (enclosing? ts _) Option.isNone_map.symm

/-- What begins a file begins bracketed tokens. -/
theorem Derivation.exists_bracketed {id : FileId} {us : List Lexed} (h : (File.phrase id).Begun us) :
    ∃ vs, Bracketed (us.map Lexed.token ++ vs) := by
  rcases h with rfl | ⟨d, vs, hd, -⟩
  · exact ⟨[], .nil⟩
  · refine ⟨vs.map Lexed.token, ?_⟩
    rw [← List.map_append, ← hd]
    exact File.bracketed id d

/-- **An error names the construct that it is in.** Before an error every terminator closes the innermost open block,
which is of its kind. At the end of the text the error names the innermost open block if there is one; otherwise it
names the construct of the last statement keyword, or the innermost open block if a terminator stands behind it. -/
theorem parse_error_production {id : FileId} {text : String} {ts : List Lexed} {e : ParseError}
    (htokens : tokenize (.ofChars id text.toList) text.toList = .ok ts)
    (h : parse id text = .error (.parse e)) :
    (∀ us t vs b, tokensBefore ts e.span.start = us ++ t :: vs → t.closes? = some b →
      ∃ bs, LeavesOpen us (b :: bs)) ∧
    (e.found.isNone = true ↔ tokensBefore ts e.span.start = ts.map Lexed.token) ∧
    (∃ bs, LeavesOpen (tokensBefore ts e.span.start) bs) ∧
    ∀ bs, LeavesOpen (tokensBefore ts e.span.start) bs →
      Names (tokensBefore ts e.span.start) bs e.found.isNone e.production := by
  obtain ⟨before, rest, hts, hbefore, hfound, hbegun, -⟩ := exists_parts_of_parse_error htokens h
  obtain ⟨after, hbracketed⟩ := Derivation.exists_bracketed hbegun
  rw [← hbefore] at hbracketed
  refine ⟨fun us t vs b hparts ht => ?_, ?_, ?_, fun bs hopened => ?_⟩
  · obtain ⟨bs, hus, hhead⟩ := hbracketed.exists_opened us (t :: vs ++ after) (by rw [hparts, List.append_assoc])
    obtain ⟨more, rfl⟩ := List.head?_eq_some_iff.mp (hhead t rfl b ht)
    exact ⟨more, hus⟩
  · rw [hbefore, hfound, hts, List.map_append, List.self_eq_append_right]
    simp
  · obtain ⟨bs, hopened, -⟩ := hbracketed.exists_opened _ _ rfl
    exact ⟨bs, hopened⟩
  · rw [production_eq (Reader.parse_of_parseText_error htokens h)]
    exact names_enclosing? (starts_of_tokenize htokens).1 hopened

/-- A menu in which something else stands behind a block that is closed. -/
def strayParenthesis : String :=
  "menu \"M\"\nif A\nendif\n)\n"

theorem strayParenthesis_production : ∃ ts e before,
    tokenize (.ofChars .root strayParenthesis.toList) strayParenthesis.toList = .ok ts ∧
      parse .root strayParenthesis = .error (.parse e) ∧
      tokensBefore ts e.span.start = before ++ [.keyword .endif] ∧ (∃ bs, LeavesOpen before (.ifBlock :: bs)) ∧
      e.found.isNone = false ∧ ∃ bs, LeavesOpen (tokensBefore ts e.span.start) bs ∧
        Names (tokensBefore ts e.span.start) bs false (some .menu) := by
  obtain ⟨ts, e, htokens, hparse, hbefore, hfound, hproduction⟩ := exists_parse_error .root strayParenthesis
    (fun ts e => tokensBefore ts e.span.start =
        [.keyword .menu, .string "M" "\"M\"", .keyword .ifBlock, .ident "A"] ++ [.keyword .endif] ∧
      e.found.isNone = false ∧ e.production = some .menu) (by decide +kernel)
  obtain ⟨hcloses, -, ⟨bs, hopened⟩, hnames⟩ := parse_error_production htokens hparse
  have hmenu := hnames bs hopened
  rw [hfound, hproduction] at hmenu
  exact ⟨ts, e, _, htokens, hparse, hbefore, hcloses _ _ [] _ hbefore rfl, hfound, bs, hopened, hmenu⟩

end KconfigLang
