import KconfigLang.Proofs.Grammar.Completion
import KconfigLang.Proofs.Grammar.DeclaredTypes
import KconfigLang.Proofs.Grammar.Lookahead
import KconfigLang.Proofs.Grammar.Positions
import KconfigLang.Proofs.Token.Layout

/-!
# Where errors are

A text that is rejected is a file up to its error: the tokens before the error are the first tokens of a text
that is accepted, and with the token at the error they are not. A reader that looks for the furthest failure
sees to this by itself; the types of entries are checked beside it, and where a block is not closed their
conflicts are lost.

- `Derivation.StopsAt`: where the reading of a file stops.
- `Derivation.begun_of_tokens_eq`: what a derivation begins with can be completed by a few closing tokens.
- `Viable`: some tokens are the first of a text that is accepted.
- `viable_of_begun`: what begins a derivation begins a file, unless an entry in it declares two types.
- `parse_error_place`: what is before an error and what is at it.
- `openMenu_loses_conflict`: in a menu that is not closed a second type is not reported.
-/

namespace KconfigLang

/-! ## Readers that always take something -/

/-- A reader that takes a node at every place. -/
def Reader.Total {α : Type} (p : Reader α) : Prop :=
  ∀ place, ∃ t, (p place).taken = some t

namespace Reader.Total

variable {α β : Type} {p : Reader α}

theorem nothing (a : α) : Total (Pure.pure a) := fun _ => ⟨_, rfl⟩

theorem bind {f : α → Reader β} (h : Total p) (hf : ∀ a, Total (f a)) : Total (p >>= f) := by
  intro place
  obtain ⟨t, ht⟩ := h place
  obtain ⟨u, hu⟩ := hf t.value t.after
  rw [Reads.taken_bind, ht, Option.bind_some, hu]
  exact ⟨_, rfl⟩

theorem optional (p : Reader α) : Total (Reader.optional p) := by
  intro place
  rw [Reads.taken_optional]
  cases (p place).taken <;> exact ⟨_, rfl⟩

theorem many {F : Fork} (h : ∀ n, Local F n p p) : Total (Reader.many p) := by
  intro place
  obtain ⟨t, ht, -⟩ := (h _).exists_taken_many (Nat.lt_succ_self place.rest.length)
  exact ⟨t, ht⟩

end Reader.Total

/-- A reader that takes something rejects a list for the first conflict in what it takes, or for the furthest
failure if it does not take all. -/
theorem Reader.parse_error_of_taken {α : Type} {p : Reader α} {loc : Locator} {ts : List Lexed} {t : Taken α}
    {e : ParseError} (ht : (p ⟨ts, 0, 0⟩).taken = some t) (h : p.parse loc ts = .error e) :
    (∃ c cs, t.conflicts = c :: cs ∧ e = .ofConflict ts c) ∨
      e = .ofFurthest loc ts ((Furthest.merge (p ⟨ts, 0, 0⟩).furthest
        (some ⟨t.after.index, [.endOfInput]⟩)).getD ⟨ts.length, []⟩) := by
  obtain ⟨v, ⟨rest, index, stop⟩, conflicts⟩ := t
  unfold Reader.parse at h
  simp only [ht, Option.map_some, Option.getD_some] at h
  cases conflicts with
  | cons c cs => exact .inl ⟨c, cs, rfl, (Except.error.inj h).symm⟩
  | nil =>
    cases rest with
    | nil => cases h
    | cons u us => exact .inr (Except.error.inj h).symm

/-! ## Where the reading of a file stops -/

namespace Derivation

/-- The tokens `us` begin a file, and with the first token of `vs` they begin none, wherever they stand. -/
structure StopsAt (id : FileId) (us vs : List Lexed) : Prop where
  begun : (File.phrase id).Begun us
  stuck : ∀ t ∈ vs.head?, ∀ id' d,
    ¬ (us ++ [t]).map Lexed.token <+: ((File.phrase id').tokens d).map Lexed.token

variable {id : FileId} {ts : List Lexed}

/-- The reader of files always takes a file, if only one of no tokens at all. -/
theorem exists_taken_file (id : FileId) (ts : List Lexed) : ∃ d rest, ts = (File.phrase id).tokens d ++ rest ∧
    (Grammar.file id ⟨ts, 0, 0⟩).taken = some ⟨(File.phrase id).tree d,
      (⟨ts, 0, 0⟩ : Place).past ((File.phrase id).tokens d), (File.phrase id).conflicts d⟩ := by
  have htotal : (Grammar.file id).Total :=
    (Reader.Total.optional _).bind fun _ => (Reader.Total.many (F := ⟨0, [], []⟩) fun _ =>
      Grammar.statement_local).bind fun _ => .nothing _
  obtain ⟨t, ht⟩ := htotal ⟨ts, 0, 0⟩
  obtain ⟨d, rest, hd, rfl⟩ := (reads_file id).sound (Nat.lt_succ_self _) ht
  exact ⟨d, rest, hd, ht⟩

/-- The reading of a file stops at its furthest failure, where the end of the input is expected behind what was
taken. -/
theorem stopsAt_of_taken {rest : List Lexed} {d : File} (hd : ts = (File.phrase id).tokens d ++ rest)
    (ht : (Grammar.file id ⟨ts, 0, 0⟩).taken = some ⟨(File.phrase id).tree d,
      (⟨ts, 0, 0⟩ : Place).past ((File.phrase id).tokens d), (File.phrase id).conflicts d⟩) :
    ∃ us vs m, ts = us ++ vs ∧ StopsAt id us vs ∧ m.index = us.length ∧
      Furthest.merge (Grammar.file id ⟨ts, 0, 0⟩).furthest
        (some ⟨((⟨ts, 0, 0⟩ : Place).past ((File.phrase id).tokens d)).index, [.endOfInput]⟩) = some m := by
  have hindex : ((⟨ts, 0, 0⟩ : Place).past ((File.phrase id).tokens d)).index =
      ((File.phrase id).tokens d).length := Nat.zero_add _
  rw [hindex]
  obtain ⟨m, hm⟩ := Furthest.exists_merge_some (Grammar.file id ⟨ts, 0, 0⟩).furthest
    ⟨((File.phrase id).tokens d).length, [.endOfInput]⟩
  obtain ⟨us, vs, hts, hus, hbegun⟩ : ∃ us vs, ts = us ++ vs ∧ m.index = us.length ∧
      (File.phrase id).Begun us := by
    rcases Furthest.merge_cases hm with ⟨n, hn, hindex⟩ | ⟨n, hn, hindex⟩
    · obtain ⟨us, vs, hts, hus, hbegun⟩ := progress_file id ⟨ts, 0, 0⟩ n (Nat.lt_succ_self _) hn
      exact ⟨us, vs, hts, hindex.symm.trans (hus.trans (Nat.zero_add _)), hbegun⟩
    · obtain rfl := Option.some.inj hn
      exact ⟨_, rest, hd, hindex.symm, Phrase.begun_tokens d⟩
  refine ⟨us, vs, m, hts, ⟨hbegun, fun t hvs id' d' hprefix => ?_⟩, hus, hm⟩
  have hreach := congrArg Furthest.reach hm
  simp only [Furthest.reach_merge, Furthest.reach_some] at hreach
  obtain ⟨more, rfl⟩ := List.head?_eq_some_iff.mp hvs
  rw [hts] at hreach ht
  have htaken : ∀ u ∈ (Grammar.file id ⟨us ++ t :: more, 0, 0⟩).taken, u.after.index ≤ us.length := by
    intro u hu
    obtain rfl := Option.some.inj (ht.symm.trans hu)
    show 0 + _ ≤ _
    omega
  have hall : (⟨(File.phrase id').tokens d', 0, 0⟩ : Place).rest = (File.phrase id').tokens d' ++ [] :=
    (List.append_nil _).symm
  exact Local.stuck (fun _ _ => Grammar.file_local id id') (by omega) htaken hprefix _
    ((reads_file id').complete (Nat.lt_succ_self _) hall (precedes_nil _)) (Place.rest_past hall)

/-- The beginnings of derivations can be completed. -/
theorem begun_of_tokens_eq {d : File} {us vs : List Lexed} (h : (File.phrase id).tokens d = us ++ vs) :
    (File.phrase id).Begun us := by
  obtain ⟨d', rest, hd', ht⟩ := exists_taken_file id us
  obtain ⟨us, ws, -, rfl, hstop, -⟩ := stopsAt_of_taken hd' ht
  cases ws with
  | nil => exact (List.append_nil us).symm ▸ hstop.begun
  | cons t ws =>
    refine absurd ?_ (hstop.stuck t rfl id d)
    rw [h]
    exact List.IsPrefix.map _ ⟨ws ++ vs, by simp⟩

/-- A file is rejected for a conflict of types in a file that its tokens begin with, or for the token at which
its reading stops. -/
theorem parse_error_cases {loc : Locator} {e : ParseError} (h : (Grammar.file id).parse loc ts = .error e) :
    (∃ d rest c cs, ts = (File.phrase id).tokens d ++ rest ∧ (File.phrase id).conflicts d = c :: cs ∧
        e = .ofConflict ts c) ∨
      ∃ us vs, ∃ m : Furthest, ts = us ++ vs ∧ StopsAt id us vs ∧ m.index = us.length ∧
        e = .ofFurthest loc ts m := by
  obtain ⟨d, rest, hd, ht⟩ := exists_taken_file id ts
  rcases Reader.parse_error_of_taken ht h with ⟨c, cs, hconflicts, he⟩ | he
  · exact .inl ⟨d, rest, c, cs, hd, hconflicts, he⟩
  · obtain ⟨us, vs, m, hts, hstop, hindex, hm⟩ := stopsAt_of_taken hd ht
    rw [hm] at he
    exact .inr ⟨us, vs, m, hts, hstop, hindex, he⟩

end Derivation

/-! ## Beginnings of files -/

open KconfigLang.Derivation

/-- Some tokens that a text which is accepted begins with. -/
def Viable (ts : List Token) : Prop :=
  ∃ (id : FileId) (text : String) (us : List Lexed) (root : Root),
    tokenize (.ofChars id text.toList) text.toList = .ok us ∧ ts <+: us.map Lexed.token ∧
      parse id text = .ok root

theorem viable_iff {ts : List Token} : Viable ts ↔ ∃ (id : FileId) (text : String) (d : File),
    tokenize (.ofChars id text.toList) text.toList = .ok ((File.phrase id).tokens d) ∧
      ts <+: ((File.phrase id).tokens d).map Lexed.token ∧ (File.phrase id).conflicts d = [] := by
  constructor
  · rintro ⟨id, text, us, root, htokens, hprefix, hparse⟩
    obtain ⟨d, hd, -, hconflicts⟩ := (parse_eq_ok_iff id text root).mp hparse
    obtain rfl := Except.ok.inj (htokens.symm.trans hd)
    exact ⟨id, text, d, htokens, hprefix, hconflicts⟩
  · rintro ⟨id, text, d, htokens, hprefix, hconflicts⟩
    exact ⟨id, text, _, _, htokens, hprefix, (parse_eq_ok_iff id text _).mpr ⟨d, htokens, rfl, hconflicts⟩⟩

/-- No entry of a file that is accepted declares two types. -/
theorem Viable.typesOnce {ts : List Token} (h : Viable ts) : TypesOnce ts := by
  obtain ⟨id, text, d, -, ⟨us, hus⟩, hconflicts⟩ := viable_iff.mp h
  have honce := (typesOnce_iff id d).mpr hconflicts
  rw [← hus] at honce
  exact honce.of_append

/-- Where the reading of a list stops, its tokens up to there are no beginning of a file. -/
theorem Derivation.StopsAt.not_viable {id : FileId} {us vs : List Lexed} (h : StopsAt id us vs) :
    ∀ t ∈ vs.head?, ¬ Viable ((us ++ [t]).map Lexed.token) := by
  intro t ht hviable
  obtain ⟨id', text, d, -, hprefix, -⟩ := viable_iff.mp hviable
  exact h.stuck t ht id' d hprefix

/-! ### Completing a beginning -/

theorem readable_of_mem_closers : ∀ t ∈ closers, t.Readable := by
  unfold closers
  simp only [List.forall_mem_cons, List.not_mem_nil, false_implies, implies_true, and_true]
  have hempty (rest : List Char) (h : Spaced rest) : Literal.literalLength? ('"' :: rest) = some 1 :=
    Literal.literalLength?_of_closed (h.ne_cons (by decide))
  exact ⟨⟨by decide, by decide, 'A', [], rfl, rfl, List.forall_mem_nil _⟩,
    ⟨['"'], rfl, by decide +kernel, hempty⟩, trivial, trivial, trivial, trivial, trivial, trivial⟩

theorem Completes.readable {us vs : List Lexed} (h : Completes us vs) : ∀ t ∈ vs, t.token.Readable := by
  rcases h with h | ⟨pos, more, rfl, h, -⟩
  · exact fun t ht => readable_of_mem_closers _ (h t ht)
  · exact List.forall_mem_cons.mpr ⟨trivial, fun t ht => readable_of_mem_closers _ (h t ht)⟩

theorem AllClosers.lineWise {vs : List Lexed} (h : AllClosers vs) (prev : Option Token) :
    LineWise prev (vs.map Lexed.token) := by
  refine lineWise_of_forall_ne (fun t ht => ?_) prev
  obtain ⟨u, hu, rfl⟩ := List.mem_map.mp ht
  intro heq
  exact absurd (heq ▸ h u hu) (by decide)

/-- An `if` that completes a beginning stands behind `visible`. -/
theorem Completes.lineWise {us vs : List Lexed} (h : Completes us vs)
    (hus : LineWise none (us.map Lexed.token)) : LineWise none ((us ++ vs).map Lexed.token) := by
  rw [List.map_append, lineWise_append]
  refine ⟨hus, ?_⟩
  rcases h with h | ⟨pos, more, rfl, h, t, ht, hvisible⟩
  · exact h.lineWise _
  · rw [List.getLast?_map, Option.mem_def.mp ht, Option.map_some, Option.some_or, hvisible]
    exact ⟨fun _ => ⟨_, rfl, nofun⟩, h.lineWise _⟩

/-- What completes a beginning declares no types. -/
theorem Completes.typesOnce {us vs : List Lexed} (h : Completes us vs)
    (hus : TypesOnce (us.map Lexed.token)) : TypesOnce ((us ++ vs).map Lexed.token) := by
  have hvs : ∀ t ∈ vs.map Lexed.token, startsType t = false := by
    have hclosers : ∀ t ∈ closers, startsType t = false := by decide
    refine List.forall_mem_map.mpr ?_
    rcases h with h | ⟨pos, more, rfl, h, -⟩
    · exact fun t ht => hclosers _ (h t ht)
    · exact List.forall_mem_cons.mpr ⟨rfl, fun t ht => hclosers _ (h t ht)⟩
  rw [List.map_append]
  exact hus.append hvs

/-- A beginning of a derivation whose tokens are those of a text is a beginning of a file if no entry in it
declares two types. -/
theorem viable_of_begun {id : FileId} {us : List Lexed} (h : (File.phrase id).Begun us)
    (hreadable : ∀ t ∈ us, t.token.Readable) (hlines : LineWise none (us.map Lexed.token))
    (honce : TypesOnce (us.map Lexed.token)) : Viable (us.map Lexed.token) := by
  obtain ⟨d, vs, hd, hvs⟩ : ∃ d vs, (File.phrase id).tokens d = us ++ vs ∧ Completes us vs := by
    rcases h with rfl | h
    · exact ⟨⟨none, []⟩, [], rfl, .inl allClosers_nil⟩
    · exact h
  have hall : ∀ t ∈ (us ++ vs).map Lexed.token, t.Readable :=
    List.forall_mem_map.mpr (List.forall_mem_append.mpr ⟨hreadable, hvs.readable⟩)
  obtain ⟨text, htext⟩ := exists_text hall (hvs.lineWise hlines)
  obtain ⟨ws, hws, hsame⟩ := htext (.ofChars id text.toList)
  have hconflicts : (File.phrase id).conflicts d = [] := by
    rw [← typesOnce_iff, hd]
    exact hvs.typesOnce honce
  have hparse : (Grammar.file id).parse (.ofChars id text.toList) (us ++ vs) = .ok ((File.phrase id).tree d) :=
    (Reads.parse_eq_ok_iff (fun _ => reads_file id) _ _ _).mpr ⟨d, hd, rfl, hconflicts⟩
  obtain ⟨root, hroot, -⟩ := (Grammar.file_alike id id).parse_sameTokens hsame.symm hparse
    (.ofChars id text.toList)
  refine ⟨id, text, ws, root, hws, ?_, ?_⟩
  · rw [hsame, List.map_append]
    exact List.prefix_append _ _
  · exact (Reader.parseText_eq_ok_iff _ _ _ _).mpr ⟨ws, hws, hroot⟩

/-! ## Where errors are -/

/-- The tokens of a text that start before a byte. -/
def tokensBefore (ts : List Lexed) (offset : Nat) : List Token :=
  (ts.filter (·.span.start < offset)).map Lexed.token

/-- The tokens of a text start one behind the other and before its end. -/
theorem starts_of_tokenize {loc : Locator} {cs : List Char} {ts : List Lexed} (h : tokenize loc cs = .ok ts) :
    ts.Pairwise (·.span.start < ·.span.start) ∧ ∀ t ∈ ts, t.span.start < Text.byteLength cs := by
  have htiles : Tiles 0 cs (Cursor.ofChars cs).items := Tiles.of_items (Cursor.ofChars cs)
  rw [tokenize_eq_ok_iff] at h
  generalize (Cursor.ofChars cs).items = items at h htiles
  have hstarts : ts.map (·.span.start) = items.map (·.start) := by
    clear htiles
    induction h with
    | nil => rfl
    | cons hitem _ ih =>
      rw [List.map_cons, List.map_cons, ih, (StreamItem.locate_eq_ok_iff.mp hitem).2]
      rfl
  constructor
  · rw [← List.pairwise_map, hstarts, List.pairwise_map]
    refine htiles.pairwise.imp_of_mem fun hitem _ hle => ?_
    exact Nat.lt_of_lt_of_le (htiles.start_lt_stop _ hitem) hle
  · intro t ht
    have hmem : t.span.start ∈ items.map (·.start) := hstarts ▸ List.mem_map_of_mem ht
    obtain ⟨item, hitem, hstart⟩ := List.mem_map.mp hmem
    obtain ⟨before, piece, after, rfl, -, -, hstop⟩ := htiles.exists_piece item hitem
    have hlt := htiles.start_lt_stop item hitem
    rw [Text.byteLength_append]
    omega

theorem tokensBefore_of_forall_lt {ts : List Lexed} {offset : Nat} (h : ∀ t ∈ ts, t.span.start < offset) :
    tokensBefore ts offset = ts.map Lexed.token := by
  rw [tokensBefore, List.filter_eq_self.mpr fun t ht => decide_eq_true (h t ht)]

theorem tokensBefore_append {us vs : List Lexed} {t : Lexed}
    (h : (us ++ t :: vs).Pairwise (·.span.start < ·.span.start)) :
    tokensBefore (us ++ t :: vs) t.span.start = us.map Lexed.token := by
  obtain ⟨-, hvs, hus⟩ := List.pairwise_append.mp h
  have hbehind : (t :: vs).filter (·.span.start < t.span.start) = [] := by
    refine List.filter_eq_nil_iff.mpr (List.forall_mem_cons.mpr ⟨by simp, fun u hu => ?_⟩)
    have hlt := (List.pairwise_cons.mp hvs).1 u hu
    simp only [decide_eq_true_eq]
    omega
  rw [tokensBefore, List.filter_append, hbehind, List.append_nil]
  exact tokensBefore_of_forall_lt fun u hu => hus u hu t List.mem_cons_self

theorem find?_start_append {us vs : List Lexed} {t : Lexed}
    (h : (us ++ t :: vs).Pairwise (·.span.start < ·.span.start)) :
    (us ++ t :: vs).find? (·.span.start == t.span.start) = some t := by
  obtain ⟨-, -, hus⟩ := List.pairwise_append.mp h
  have hbefore : us.find? (·.span.start == t.span.start) = none := by
    refine List.find?_eq_none.mpr fun u hu => ?_
    have hlt := hus u hu t List.mem_cons_self
    simp only [beq_iff_eq]
    omega
  simp [List.find?_append, hbefore]

theorem Reader.parse_of_parseText_error {α : Type} {p : Reader α} {file : FileId} {text : String}
    {ts : List Lexed} {e : ParseError}
    (htokens : tokenize (.ofChars file text.toList) text.toList = .ok ts)
    (h : p.parseText file text = .error (.parse e)) : p.parse (.ofChars file text.toList) ts = .error e := by
  unfold parseText at h
  simp only [htokens] at h
  cases hparse : p.parse (.ofChars file text.toList) ts with
  | ok v => rw [hparse] at h; cases h
  | error e' => rw [hparse] at h; cases h; rfl

/-- An error parts the tokens of a text in two: it is before the first token of the second part, which begins no
file with the first part, while the first part begins a derivation. -/
theorem exists_parts_of_parse_error {id : FileId} {text : String} {ts : List Lexed} {e : ParseError}
    (htokens : tokenize (.ofChars id text.toList) text.toList = .ok ts)
    (h : parse id text = .error (.parse e)) : ∃ us vs, ts = us ++ vs ∧
      tokensBefore ts e.span.start = us.map Lexed.token ∧ e.found = vs.head?.map Lexed.token ∧
      (File.phrase id).Begun us ∧ (∀ t ∈ vs.head?, ¬ Viable ((us ++ [t]).map Lexed.token)) ∧
      ∀ c, e.cause = .typeConflict c → TypesOnce (us.map Lexed.token) := by
  obtain ⟨hstarts, hend⟩ := starts_of_tokenize htokens
  rcases parse_error_cases (Reader.parse_of_parseText_error htokens h) with
    ⟨d, rest, c, cs, hd, hconflicts, rfl⟩ | ⟨us, vs, m, rfl, hstop, hindex, rfl⟩
  -- A conflict of types is at the token with which the entry declares its second one.
  · obtain ⟨us, t, vs, hparts, hstart, honce, htwice⟩ := exists_second_type hconflicts
    obtain rfl : ts = us ++ t :: (vs ++ rest) := by rw [hd, hparts, List.append_assoc, List.cons_append]
    refine ⟨us, t :: (vs ++ rest), rfl, ?_, ?_, begun_of_tokens_eq hparts, ?_, fun _ _ => honce⟩
    · show tokensBefore _ c.second.span.start = _
      rw [← hstart, tokensBefore_append hstarts]
    · show Option.map _ (List.find? _ _) = _
      rw [← hstart, find?_start_append hstarts]
      rfl
    · intro u hu hviable
      obtain rfl := Option.some.inj hu
      exact htwice hviable.typesOnce
  · have hfound : (us ++ vs)[m.index]? = vs.head? := by
      rw [hindex, List.getElem?_append_right (Nat.le_refl _), Nat.sub_self, List.head?_eq_getElem?]
    refine ⟨us, vs, rfl, ?_, congrArg (Option.map Lexed.token) hfound, hstop.begun, hstop.not_viable, ?_⟩
    · show tokensBefore _ (((us ++ vs)[m.index]?.map Lexed.span).getD _).start = _
      rw [hfound]
      cases vs with
      | nil =>
        rw [List.append_nil] at hend ⊢
        exact tokensBefore_of_forall_lt hend
      | cons t vs => exact tokensBefore_append hstarts
    · intro c hc
      cases hc

/-- An error in a text that has tokens is at the first token that begins no file with those before it, or at
the end if the text breaks off; and the tokens before it begin a file, unless an entry among them declares two
types. If the error is a conflict of types, none does. -/
theorem parse_error_place {id : FileId} {text : String} {ts : List Lexed} {e : ParseError}
    (htokens : tokenize (.ofChars id text.toList) text.toList = .ok ts)
    (h : parse id text = .error (.parse e)) :
    (Viable (tokensBefore ts e.span.start) ↔ TypesOnce (tokensBefore ts e.span.start)) ∧
      (∀ c, e.cause = .typeConflict c → TypesOnce (tokensBefore ts e.span.start)) ∧
      (∀ t, e.found = some t → tokensBefore ts e.span.start ++ [t] <+: ts.map Lexed.token ∧
        ¬ Viable (tokensBefore ts e.span.start ++ [t])) ∧
      (e.found = none → tokensBefore ts e.span.start = ts.map Lexed.token) := by
  obtain ⟨us, vs, rfl, hbefore, hfound, hbegun, hnext, honce⟩ := exists_parts_of_parse_error htokens h
  have hreadable : ∀ t ∈ us, t.token.Readable := fun t ht =>
    readable_of_tokenize htokens t (List.mem_append_left _ ht)
  have hlines : LineWise none (us.map Lexed.token) := by
    have hall := lineWise_of_tokenize htokens
    rw [List.map_append, lineWise_append] at hall
    exact hall.1
  rw [hbefore, hfound]
  refine ⟨⟨Viable.typesOnce, viable_of_begun hbegun hreadable hlines⟩, honce, fun t ht => ?_, fun hnone => ?_⟩
  · obtain ⟨u, hu, rfl⟩ := Option.map_eq_some_iff.mp ht
    obtain ⟨more, rfl⟩ := List.head?_eq_some_iff.mp hu
    refine ⟨⟨more.map Lexed.token, by simp⟩, ?_⟩
    have hviable := hnext u rfl
    rwa [List.map_append] at hviable
  · obtain rfl := List.head?_eq_none_iff.mp (Option.map_eq_none_iff.mp hnone)
    rw [List.append_nil]

theorem exists_parse_error (id : FileId) (text : String) (P : List Lexed → ParseError → Prop)
    [∀ ts e, Decidable (P ts e)]
    (h : (match tokenize (.ofChars id text.toList) text.toList, parse id text with
      | .ok ts, .error (.parse e) => decide (P ts e)
      | _, _ => false) = true) :
    ∃ ts e, tokenize (.ofChars id text.toList) text.toList = .ok ts ∧ parse id text = .error (.parse e) ∧
      P ts e := by
  split at h
  · rename_i ts e htokens hparse
    exact ⟨ts, e, htokens, hparse, of_decide_eq_true h⟩
  · cases h

/-- A menu with an entry of two types. -/
def closedMenu : String :=
  "menu \"M\"\nconfig A\n\tbool\n\tint\nendmenu\n"

theorem closedMenu_error_place : ∃ ts e,
    tokenize (.ofChars .root closedMenu.toList) closedMenu.toList = .ok ts ∧
      parse .root closedMenu = .error (.parse e) ∧ e.found = some (.keyword .int) ∧
      Viable (tokensBefore ts e.span.start) ∧ ¬ Viable (tokensBefore ts e.span.start ++ [.keyword .int]) := by
  obtain ⟨ts, e, htokens, hparse, hfound, honce⟩ := exists_parse_error .root closedMenu
    (fun ts e => e.found = some (.keyword .int) ∧ TypesOnce (tokensBefore ts e.span.start)) (by decide +kernel)
  obtain ⟨hviable, -, hnext, -⟩ := parse_error_place htokens hparse
  exact ⟨ts, e, htokens, hparse, hfound, hviable.mpr honce, (hnext _ hfound).2⟩

/-- The same menu without its end. -/
def openMenu : String :=
  "menu \"M\"\nconfig A\n\tbool\n\tint\n"

/-- The reader of a menu that is not closed takes nothing, and the conflict of types in it is lost: the error is
at the end, though the tokens before it begin no file. -/
theorem openMenu_loses_conflict : ∃ ts e,
    tokenize (.ofChars .root openMenu.toList) openMenu.toList = .ok ts ∧
      parse .root openMenu = .error (.parse e) ∧ e.found = none ∧
      tokensBefore ts e.span.start = ts.map Lexed.token ∧ ¬ Viable (tokensBefore ts e.span.start) := by
  obtain ⟨ts, e, htokens, hparse, hfound, hbefore, honce⟩ := exists_parse_error .root openMenu
    (fun ts e => e.found = none ∧ tokensBefore ts e.span.start = ts.map Lexed.token ∧
      ¬ TypesOnce (tokensBefore ts e.span.start)) (by decide +kernel)
  exact ⟨ts, e, htokens, hparse, hfound, hbefore, fun hviable => honce hviable.typesOnce⟩

end KconfigLang
