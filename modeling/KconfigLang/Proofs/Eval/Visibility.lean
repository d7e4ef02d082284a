import KconfigLang.Proofs.Eval.Strictness
import KconfigLang.Tree.Stmt
import Mathlib.Data.List.Basic

/-!
# Visibility of menus

A menu is shown under the conjunction of its `visible if` conditions. Evaluating the conjunction is evaluating the
conditions one by one and taking the least value, whether or not kinds are checked: a condition that is no tristate is
refused, or converted, in the same way by `&&` as on its own.

- `Property.isDependency` and `Menu.ShownIf`: the properties of a menu that do not matter, and those that do.
- `IsMinimum`: the least value of some conditions, all of which have one.
- `evalTristate_join_and`: the value of a conjunction.
- `evalTristate_foldl_and`: the value of a conjunction of any length.
- `Menu.visible_minimum`: when a menu is visible.
-/

namespace KconfigLang

/-- Whether a property is a `depends on` condition. -/
def Property.isDependency : Property → Bool
  | .dependsOn _ _ => true
  | _ => false

/-- The condition of a `visible if` property. -/
def Property.shownIf? : Property → Option Expr
  | .visible condition _ => some condition
  | _ => none

/-- A menu has a `visible if` property with a condition. -/
def Menu.ShownIf (m : Menu) (condition : Expr) : Prop :=
  ∃ pos, .visible condition pos ∈ m.properties

/-- The least of the values of some conditions, all of which have one. -/
structure IsMinimum (check : Checking) (lookup : String → Option Value) (conditions : Expr → Prop) (t : Tristate) :
    Prop where
  /-- Every condition has a value, which is not less. -/
  le : ∀ e, conditions e → ∃ u, evalTristate check lookup e = .ok u ∧ t.rank ≤ u.rank
  /-- It is the value of one of them. -/
  attained : ∃ e, conditions e ∧ evalTristate check lookup e = .ok t

theorem Tristate.rank_and (t u : Tristate) : (t.and u).rank = min t.rank u.rank := by
  cases t <;> cases u <;> rfl

/-- What comes out of two steps comes out of the second one. -/
theorem bind_eq_ok_iff {ε α β : Type} {x : Except ε α} {f : α → Except ε β} {b : β} :
    (x >>= f) = .ok b ↔ ∃ a, x = .ok a ∧ f a = .ok b := by
  cases x with
  | error e => exact iff_of_false nofun fun ⟨_, h, _⟩ => nomatch h
  | ok a => exact ⟨fun h => ⟨a, rfl, h⟩, fun ⟨_, ha, h⟩ => Except.ok.inj ha ▸ h⟩

/-! ## Conjunctions -/

theorem Tristate.rank_injective {t u : Tristate} (h : t.rank = u.rank) : t = u := by
  cases t <;> cases u <;> first | rfl | exact absurd h (by decide)

theorem Tristate.and_eq_or (t u : Tristate) : t.and u = t ∨ t.and u = u := by
  cases t <;> cases u <;> decide

section Conjunction

variable {check : Checking} {lookup : String → Option Value} {a b e : Expr} {es : List Expr} {t : Tristate}

/-- Whether an operand is a tristate, and which, does not depend on what asks for it. -/
theorem tristate_eq_ok_iff (demand demand' : Demand) (pos pos' : Span) {v : Value} :
    check.tristate demand pos v = .ok t ↔ check.tristate demand' pos' v = .ok t := by
  cases v <;> cases check <;> simp [Checking.tristate]

/-- An operand of an operator is taken as a condition is. -/
theorem operand_eq_ok_iff (demand : Demand) (pos : Span) :
    (eval check lookup e >>= check.tristate demand pos) = .ok t ↔ evalTristate check lookup e = .ok t := by
  unfold evalTristate
  rw [bind_eq_ok_iff, bind_eq_ok_iff]
  exact exists_congr fun v => and_congr_right fun _ => tristate_eq_ok_iff demand .condition pos e.span

/-- A conjunction has a value if both operands have one, and then it is the smaller one. -/
theorem evalTristate_join_and : evalTristate check lookup (a.join .and b) = .ok t ↔
    ∃ u v, evalTristate check lookup a = .ok u ∧ evalTristate check lookup b = .ok v ∧ u.and v = t := by
  have hparts : evalTristate check lookup (a.join .and b) = do
      let u ← eval check lookup a >>= check.tristate (.operator .and) a.span
      let v ← eval check lookup b >>= check.tristate (.operator .and) b.span
      return u.and v := by
    simp only [evalTristate, Expr.join, eval, bind_assoc, pure_bind]
    rfl
  rw [hparts, bind_eq_ok_iff]
  refine exists_congr fun u => ?_
  rw [operand_eq_ok_iff, bind_eq_ok_iff, exists_and_left]
  refine and_congr_right fun _ => exists_congr fun v => and_congr (operand_eq_ok_iff _ _) ?_
  exact ⟨Except.ok.inj, congrArg Except.ok⟩

/-- In front of other conditions a conjunction counts as its two operands. -/
theorem isMinimum_join_and : IsMinimum check lookup (· ∈ a.join .and b :: es) t ↔
    IsMinimum check lookup (· ∈ a :: b :: es) t := by
  constructor
  · rintro ⟨hle, e, he, ht⟩
    obtain ⟨⟨w, hw, htw⟩, hrest⟩ := List.forall_mem_cons.mp hle
    obtain ⟨u, v, hu, hv, rfl⟩ := evalTristate_join_and.mp hw
    rw [Tristate.rank_and, Nat.le_min] at htw
    refine ⟨List.forall_mem_cons.mpr ⟨⟨u, hu, htw.1⟩, List.forall_mem_cons.mpr ⟨⟨v, hv, htw.2⟩, hrest⟩⟩, ?_⟩
    rcases List.mem_cons.mp he with rfl | he
    · obtain rfl := Except.ok.inj (hw.symm.trans ht)
      rcases Tristate.and_eq_or u v with heq | heq
      · exact ⟨a, List.mem_cons_self, hu.trans (congrArg _ heq.symm)⟩
      · exact ⟨b, List.mem_cons_of_mem a List.mem_cons_self, hv.trans (congrArg _ heq.symm)⟩
    · exact ⟨e, List.mem_cons_of_mem a (List.mem_cons_of_mem b he), ht⟩
  · rintro ⟨hle, e, he, ht⟩
    obtain ⟨⟨u, hu, htu⟩, hle⟩ := List.forall_mem_cons.mp hle
    obtain ⟨⟨v, hv, htv⟩, hrest⟩ := List.forall_mem_cons.mp hle
    have hjoin : evalTristate check lookup (a.join .and b) = .ok (u.and v) :=
      evalTristate_join_and.mpr ⟨u, v, hu, hv, rfl⟩
    have hrank := Tristate.rank_and u v
    refine ⟨List.forall_mem_cons.mpr ⟨⟨_, hjoin, by omega⟩, hrest⟩, ?_⟩
    -- The least value is that of the conjunction if it is that of one operand.
    have hself (hmin : t = u ∨ t = v) : ∃ e ∈ a.join .and b :: es, evalTristate check lookup e = .ok t := by
      have heq : u.and v = t := Tristate.rank_injective (by rcases hmin with rfl | rfl <;> omega)
      exact ⟨_, List.mem_cons_self, heq ▸ hjoin⟩
    rcases List.mem_cons.mp he with rfl | he
    · exact hself (.inl (Except.ok.inj (ht.symm.trans hu)))
    · rcases List.mem_cons.mp he with rfl | he
      · exact hself (.inr (Except.ok.inj (ht.symm.trans hv)))
      · exact ⟨e, List.mem_cons_of_mem _ he, ht⟩

/-- A conjunction of any length has the least value of its conditions, if all of them have one. The induction takes one
condition at a time into the conjunction of those before it. -/
theorem evalTristate_foldl_and (e : Expr) (es : List Expr) :
    evalTristate check lookup (es.foldl (·.join .and ·) e) = .ok t ↔ IsMinimum check lookup (· ∈ e :: es) t := by
  induction es generalizing e with
  | nil =>
    constructor
    · intro h
      exact ⟨List.forall_mem_singleton.mpr ⟨t, h, Nat.le_refl _⟩, e, List.mem_cons_self, h⟩
    · rintro ⟨-, e', he', ht⟩
      rwa [List.mem_singleton.mp he'] at ht
  | cons c es ih => rw [List.foldl_cons, ih, isMinimum_join_and]

/-- It has a value if all of its conditions have one. -/
theorem exists_evalTristate_foldl_and (e : Expr) (es : List Expr) :
    (∃ t, evalTristate check lookup (es.foldl (·.join .and ·) e) = .ok t) ↔
      ∀ c ∈ e :: es, ∃ t, evalTristate check lookup c = .ok t := by
  induction es generalizing e with
  | nil => rw [List.forall_mem_singleton, List.foldl_nil]
  | cons c es ih =>
    rw [List.foldl_cons, ih, List.forall_mem_cons, List.forall_mem_cons, List.forall_mem_cons, ← and_assoc]
    refine and_congr_left fun _ => ?_
    constructor
    · rintro ⟨t, ht⟩
      obtain ⟨u, v, hu, hv, -⟩ := evalTristate_join_and.mp ht
      exact ⟨⟨u, hu⟩, v, hv⟩
    · rintro ⟨⟨u, hu⟩, v, hv⟩
      exact ⟨_, evalTristate_join_and.mpr ⟨u, v, hu, hv, rfl⟩⟩

/-- What has a value where kinds are checked has the same one where they are not. -/
theorem evalTristate_lenient_of_strict (h : evalTristate .strict lookup e = .ok t) :
    evalTristate .lenient lookup e = .ok t := by
  rw [evalTristate_strict, Check.behind] at h
  split at h
  · cases h
  · exact h

end Conjunction

/-! ## Menus -/

namespace Menu

variable {m : Menu} {check : Checking} {lookup : String → Option Value} {e : Expr} {t : Tristate}

theorem visible?_eq (m : Menu) : m.visible? = Expr.conjunction? (m.properties.filterMap Property.shownIf?) := by
  refine congrArg Expr.conjunction? (List.filterMap_congr fun p _ => ?_)
  cases p <;> rfl

theorem mem_filterMap_shownIf : e ∈ m.properties.filterMap Property.shownIf? ↔ m.ShownIf e := by
  rw [List.mem_filterMap]
  constructor
  · rintro ⟨p, hp, hsome⟩
    cases p with
    | visible condition pos => exact ⟨pos, Option.some.inj hsome ▸ hp⟩
    | _ => cases hsome
  · rintro ⟨pos, hp⟩
    exact ⟨_, hp, rfl⟩

/-- Dependencies may be left out. -/
theorem filterMap_filter_dependencies (ps : List Property) :
    (ps.filter (!·.isDependency)).filterMap Property.shownIf? = ps.filterMap Property.shownIf? := by
  rw [List.filterMap_filter]
  refine List.filterMap_congr fun p _ => ?_
  cases p <;> rfl

theorem visible?_eq_none_iff : m.visible? = none ↔ ∀ e, ¬ m.ShownIf e := by
  rw [visible?_eq]
  simp only [← mem_filterMap_shownIf]
  cases m.properties.filterMap Property.shownIf? with
  | nil => exact iff_of_true rfl fun _ => List.not_mem_nil
  | cons e es => exact iff_of_false (Option.some_ne_none _) fun hnever => hnever e List.mem_cons_self

theorem exists_of_visible? (h : m.visible? = some e) :
    ∃ c cs, e = cs.foldl (·.join .and ·) c ∧ (· ∈ c :: cs) = m.ShownIf := by
  have hshown : (· ∈ m.properties.filterMap Property.shownIf?) = m.ShownIf :=
    funext fun _ => propext mem_filterMap_shownIf
  rw [visible?_eq] at h
  cases hconditions : m.properties.filterMap Property.shownIf? with
  | nil => rw [hconditions] at h; cases h
  | cons c cs =>
    rw [hconditions] at h hshown
    exact ⟨c, cs, (Option.some.inj h).symm, hshown⟩

/-- The condition of a menu has the least value of all its `visible if` conditions. -/
theorem evalTristate_visible (h : m.visible? = some e) :
    evalTristate check lookup e = .ok t ↔ IsMinimum check lookup m.ShownIf t := by
  obtain ⟨c, cs, rfl, hshown⟩ := exists_of_visible? h
  rw [evalTristate_foldl_and, hshown]

theorem exists_evalTristate_visible (h : m.visible? = some e) : (∃ t, evalTristate check lookup e = .ok t) ↔
    ∀ c, m.ShownIf c → ∃ t, evalTristate check lookup c = .ok t := by
  obtain ⟨c, cs, rfl, hshown⟩ := exists_of_visible? h
  rw [exists_evalTristate_foldl_and, ← hshown]

/-- **Visibility**: a menu without `visible if` conditions has no condition, and `depends on` conditions do not matter.
Otherwise its condition evaluates to the least of the values of all `visible if` conditions; where kinds are checked it
has a value if all of them have one, and then it is the least one too, the same as where they are not. -/
theorem visible_minimum (m : Menu) (lookup : String → Option Value) :
    (m.visible? = none ↔ ∀ e, ¬ m.ShownIf e) ∧
    (∀ m' : Menu, m'.properties.filter (!·.isDependency) = m.properties.filter (!·.isDependency) →
      m'.visible? = m.visible?) ∧
    ∀ e, m.visible? = some e →
      (∃ t, evalTristate .lenient lookup e = .ok t ∧ IsMinimum .lenient lookup m.ShownIf t) ∧
      ((∃ t, evalTristate .strict lookup e = .ok t) ↔
        ∀ c, m.ShownIf c → ∃ t, evalTristate .strict lookup c = .ok t) ∧
      ∀ t, evalTristate .strict lookup e = .ok t →
        IsMinimum .strict lookup m.ShownIf t ∧ evalTristate .lenient lookup e = .ok t := by
  refine ⟨visible?_eq_none_iff, fun m' hsame => ?_, fun e h => ⟨?_, exists_evalTristate_visible h, fun t ht => ?_⟩⟩
  · rw [visible?_eq, visible?_eq, ← filterMap_filter_dependencies, hsame, filterMap_filter_dependencies]
  · obtain ⟨t, ht⟩ := exists_evalTristate_lenient lookup e
    exact ⟨t, ht, (evalTristate_visible h).mp ht⟩
  · exact ⟨(evalTristate_visible h).mp ht, evalTristate_lenient_of_strict ht⟩

/-- A menu with a `depends on` condition between two `visible if` conditions. -/
def shownMenu : Menu :=
  { title := ⟨"M", "\"M\"", default⟩
    properties := [.visible (.symbol ⟨"A", default⟩) default, .dependsOn (.symbol ⟨"D", default⟩) default,
      .visible (.symbol ⟨"B", default⟩) default]
    span := default }

/-- `A` is `y` and `B` is `m`, as a tristate or as a string. -/
def shownValues (b : Value) (name : String) : Option Value :=
  if name = "A" then some (.tristate .yes) else if name = "B" then some b else none

/-- Both conditions have values, of which the one behind the dependency is the least. As a string it has one only where
kinds are not checked. -/
theorem shownMenu_minimum : ∃ e, shownMenu.visible? = some e ∧
    { shownMenu with properties := shownMenu.properties.eraseIdx 1 }.visible? = some e ∧
    evalTristate .strict (shownValues (.tristate .module)) e = .ok .module ∧
    IsMinimum .strict (shownValues (.tristate .module)) shownMenu.ShownIf .module ∧
    IsMinimum .lenient (shownValues (.string "m")) shownMenu.ShownIf .module ∧
    ¬ ∃ t, evalTristate .strict (shownValues (.string "m")) e = .ok t := by
  obtain ⟨-, hsame, hvisible⟩ := visible_minimum shownMenu (shownValues (.tristate .module))
  obtain ⟨-, -, hvisible'⟩ := visible_minimum shownMenu (shownValues (.string "m"))
  have hsome : shownMenu.visible? = some (.join (.symbol ⟨"A", default⟩) .and (.symbol ⟨"B", default⟩)) := rfl
  obtain ⟨-, -, hstrict⟩ := hvisible _ hsome
  obtain ⟨⟨t, ht, hleast⟩, hall, -⟩ := hvisible' _ hsome
  have hvalue : evalTristate .strict (shownValues (.tristate .module))
      (.join (.symbol ⟨"A", default⟩) .and (.symbol ⟨"B", default⟩)) = .ok .module := by decide
  obtain rfl : t = .module := Except.ok.inj (ht.symm.trans (by decide))
  refine ⟨_, hsome, (hsame _ (by decide)).trans hsome, hvalue, (hstrict _ hvalue).1, hleast, fun h => ?_⟩
  obtain ⟨t, ht⟩ := hall.mp h (.symbol ⟨"B", default⟩) ⟨default, by decide⟩
  cases ht

end Menu

end KconfigLang
