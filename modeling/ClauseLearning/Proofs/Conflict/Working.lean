import ClauseLearning.Conflict.Working
import ClauseLearning.Proofs.Conflict.Grounded
import Mathlib.Data.List.Nodup

/-! # What the clause under construction stands for

Conflict analysis counts the literals of the current level without listing them. `Reflects` ties its
counters and tables to the trail: the marked variables are those of the clause, the literals of the
current level are on the part of the trail not passed yet and are as many as counted, and the lower
ones are listed. Which variables are marked determines the clause.
-/

namespace ClauseLearning

/-- The variable is assigned above level zero. -/
def RaisedOn (stack : List Assignment) (var : Nat) : Prop :=
  ∃ a ∈ stack, a.var = var ∧ 0 < a.level

namespace WorkingClause

def Marks (work : WorkingClause) (var : Nat) : Prop := work.marked[var]? = some true

instance (work : WorkingClause) : DecidablePred work.Marks := fun var =>
  inferInstanceAs (Decidable (work.marked[var]? = some true))

/-- The literal that the assignment made true is a marked one of the current level. -/
def counts (work : WorkingClause) (a : Assignment) : Bool :=
  decide (a.level = work.level ∧ work.Marks a.var)

/-- The clause under construction agrees with the trail, of which a part is not passed yet. -/
structure Reflects (work : WorkingClause) (t : Trail) (remaining : List Assignment) : Prop where
  level_eq : work.level = height t.stack
  size_eq : work.marked.size = t.varCount
  raised : ∀ var, work.Marks var → RaisedOn t.stack var
  waiting : ∀ a ∈ t.stack, work.counts a = true → a ∈ remaining
  atLevel_eq : work.atLevel = remaining.countP work.counts
  distinct : work.lower.Nodup
  mem_lower_iff : ∀ l, l ∈ work.lower ↔
    ∃ a ∈ t.stack, a.lit = l.negate ∧ a.level < work.level ∧ work.Marks a.var

/-- If one more element counts, the count goes up by one. -/
private theorem countP_eq_succ {α : Type} [DecidableEq α] {p q : α → Bool} {xs : List α} {x : α}
    (distinct : xs.Nodup) (member : x ∈ xs) (before : p x = false) (after : q x = true)
    (others : ∀ y ∈ xs, y ≠ x → q y = p y) : xs.countP q = xs.countP p + 1 := by
  have perm := List.perm_cons_erase member
  have rest : (xs.erase x).countP q = (xs.erase x).countP p := by
    apply List.countP_congr
    intro y listed
    obtain ⟨differs, listed⟩ := distinct.mem_erase_iff.mp listed
    rw [others y listed differs]
  rw [perm.countP_eq q, perm.countP_eq p, List.countP_cons_of_pos after,
    List.countP_cons_of_neg (by simp [before]), rest]

theorem counts_iff {work : WorkingClause} {a : Assignment} :
    work.counts a = true ↔ a.level = work.level ∧ work.Marks a.var := decide_eq_true_iff

structure Dropped (work : WorkingClause) (var : Nat) (work' : WorkingClause) : Prop where
  level_eq : work'.level = work.level
  size_eq : work'.marked.size = work.marked.size
  marks_iff : ∀ other, work'.Marks other ↔ work.Marks other ∧ other ≠ var
  atLevel_eq : work'.atLevel = work.atLevel - 1
  lower_eq : work'.lower = work.lower

theorem drop_yields {work : WorkingClause} {var : Nat} (inBounds : var < work.marked.size) :
    Yields (work.drop var) (Dropped work var) := by
  obtain ⟨current, marked, atLevel, lower⟩ := work
  simp only [drop, store_of_lt _ inBounds, ok_bind]
  refine yields_pure_iff.mpr ⟨rfl, by simp, ?_, rfl, rfl⟩
  intro other
  by_cases same : other = var
  · subst same
    simp [Marks]
  · simp [Marks, Array.getElem?_set_ne _ (Ne.symm same), same]

/-- What adding a literal of an unmarked variable changes, given the level of that variable. -/
structure Added (work : WorkingClause) (l : Lit) (level : Nat) (work' : WorkingClause) : Prop where
  level_eq : work'.level = work.level
  size_eq : work'.marked.size = work.marked.size
  marks_iff : ∀ other, work'.Marks other ↔ work.Marks other ∨ other = l.var
  atLevel_eq : work'.atLevel = if work.level ≤ level then work.atLevel + 1 else work.atLevel
  lower_eq : work'.lower = if work.level ≤ level then work.lower else work.lower ++ [l]

/-- With a failed literal its assignment counts too, if that is of the current level. -/
theorem Added.counts_iff {work work' : WorkingClause} {t : Trail} {b c : Assignment} {l : Lit}
    (added : Added work l b.level work') (stacked : Stacked t.stack) (member : b ∈ t.stack)
    (same : b.lit = l.negate) (listed : c ∈ t.stack) :
    work'.counts c = true ↔ work.counts c = true ∨ (c = b ∧ b.level = work.level) := by
  have sameVar := Assignment.var_eq_of_lit_eq_negate same
  rw [WorkingClause.counts_iff, WorkingClause.counts_iff, added.level_eq, added.marks_iff,
    and_or_left]
  refine or_congr_right ⟨?_, ?_⟩
  · rintro ⟨top, equal⟩
    obtain rfl := stacked.eq_of_var_eq listed member (equal.trans sameVar.symm)
    exact ⟨rfl, top⟩
  · rintro ⟨rfl, top⟩
    exact ⟨top, sameVar⟩

/-- A failed literal of the current level is one more to count. -/
theorem Added.countP_eq {work work' : WorkingClause} {t : Trail} {remaining : List Assignment}
    {b : Assignment} {l : Lit} (added : Added work l b.level work') (stacked : Stacked t.stack)
    (within : remaining <:+ t.stack) (member : b ∈ t.stack) (same : b.lit = l.negate)
    (waiting : b.level = work.level → b ∈ remaining) (unmarked : ¬ work.Marks l.var) :
    remaining.countP work'.counts =
      if b.level = work.level then remaining.countP work.counts + 1
      else remaining.countP work.counts := by
  have counts := fun c listed => added.counts_iff stacked member same (c := c) listed
  split
  · rename_i top
    refine countP_eq_succ ?_ (waiting top) ?_ ?_ ?_
    · exact (List.Nodup.of_map _ stacked.nodup_vars).sublist within.sublist
    · refine Bool.eq_false_iff.mpr fun counted => unmarked ?_
      rw [← Assignment.var_eq_of_lit_eq_negate same]
      exact (WorkingClause.counts_iff.mp counted).2
    · exact (counts b member).mpr (.inr ⟨rfl, top⟩)
    · intro c listed differs
      rw [Bool.eq_iff_iff, counts c (within.subset listed)]
      exact or_iff_left fun equal => differs equal.1
  · rename_i under
    apply List.countP_congr
    intro c listed
    rw [counts c (within.subset listed)]
    exact or_iff_left fun equal => under equal.2

/-- A literal that failed above level zero is added unless its variable is marked already. -/
theorem add_yields {work : WorkingClause} {t : Trail} {b : Assignment} {l : Lit}
    (coherent : t.Coherent) (size_eq : work.marked.size = t.varCount) (member : b ∈ t.stack)
    (same : b.lit = l.negate) :
    Yields (work.add t l) fun work' =>
      (work.Marks l.var ∨ b.level = 0) ∧ work' = work ∨
        ¬ work.Marks l.var ∧ 0 < b.level ∧ Added work l b.level work' := by
  have sameVar := Assignment.var_eq_of_lit_eq_negate same
  have inRange : l.var < t.varCount := sameVar ▸ coherent.var_lt member
  have inBounds : l.var < work.marked.size := size_eq ▸ inRange
  have level := coherent.stacked.levelOn_eq member
  rw [sameVar] at level
  simp only [add, fetch_of_lt inBounds, ok_bind, coherent.levelOf_eq inRange, level,
    Option.getD_some]
  split
  · rename_i marked
    refine yields_pure_iff.mpr (.inl ⟨.inl ?_, rfl⟩)
    simp [Marks, inBounds, marked]
  · rename_i unmarked
    have notMarks : ¬ work.Marks l.var := by simpa [Marks, inBounds] using unmarked
    split
    · rename_i bottom
      exact yields_pure_iff.mpr (.inl ⟨.inr bottom, rfl⟩)
    · rename_i raised
      obtain ⟨current, marked, atLevel, lower⟩ := work
      have marks : ∀ other, (marked.set l.var true inBounds)[other]? = some true ↔
          marked[other]? = some true ∨ other = l.var := by
        intro other
        by_cases same : other = l.var
        · simp [same]
        · simp [Array.getElem?_set_ne _ (Ne.symm same), same]
      simp only [store_of_lt _ inBounds, ok_bind]
      split
      · rename_i top
        exact yields_pure_iff.mpr (.inr ⟨notMarks, Nat.pos_of_ne_zero raised, rfl, by simp, marks,
          (if_pos top).symm, (if_pos top).symm⟩)
      · rename_i under
        exact yields_pure_iff.mpr (.inr ⟨notMarks, Nat.pos_of_ne_zero raised, rfl, by simp, marks,
          (if_neg under).symm, (if_neg under).symm⟩)

theorem not_marks_empty (vars level var : Nat) : ¬ (empty vars level).Marks var := by
  simp only [Marks, empty, Array.getElem?_replicate]
  split <;> simp

theorem reflects_empty {t : Trail} (remaining : List Assignment) :
    (empty t.varCount (height t.stack)).Reflects t remaining := by
  have unmarked := not_marks_empty t.varCount (height t.stack)
  have noneCounts : ∀ a, ¬ (empty t.varCount (height t.stack)).counts a = true :=
    fun a counts => unmarked a.var (counts_iff.mp counts).2
  refine ⟨rfl, by simp [empty], fun var marks => (unmarked var marks).elim,
    fun a _ counts => (noneCounts a counts).elim, ?_, .nil, ?_⟩
  · exact (List.countP_eq_zero.mpr fun a _ => noneCounts a).symm
  · intro l
    refine iff_of_false List.not_mem_nil ?_
    rintro ⟨a, -, -, -, marks⟩
    exact unmarked a.var marks

namespace Reflects
variable {work work' : WorkingClause} {t : Trail} {remaining below : List Assignment} {l : Lit}
  {a b : Assignment}

/-- An unmarked assignment is passed without any change. -/
theorem pass (reflects : work.Reflects t (a :: below)) (unmarked : ¬ work.Marks a.var) :
    work.Reflects t below := by
  have uncounted : ¬ work.counts a = true := fun counts => unmarked (counts_iff.mp counts).2
  refine ⟨reflects.level_eq, reflects.size_eq, reflects.raised, ?_, ?_, reflects.distinct,
    reflects.mem_lower_iff⟩
  · intro b member counts
    rcases List.mem_cons.mp (reflects.waiting b member counts) with rfl | waiting
    · exact (uncounted counts).elim
    · exact waiting
  · rw [reflects.atLevel_eq, List.countP_cons_of_neg uncounted]

/-- Dropping the literal on top leaves one less of the current level. -/
theorem dropped (reflects : work.Reflects t (a :: below)) (stacked : Stacked t.stack)
    (within : a :: below <:+ t.stack) (counted : work.counts a = true)
    (dropped : Dropped work a.var work') :
    work'.Reflects t below ∧ work'.atLevel + 1 = work.atLevel := by
  have atLevel := reflects.atLevel_eq
  rw [List.countP_cons_of_pos counted] at atLevel
  have counts : ∀ b, work'.counts b = true ↔ work.counts b = true ∧ b.var ≠ a.var := by
    intro b
    rw [counts_iff, counts_iff, dropped.level_eq, dropped.marks_iff, and_assoc]
  have same : below.countP work'.counts = below.countP work.counts := by
    apply List.countP_congr
    intro b under
    rw [counts, and_iff_left ((stacked.suffix within).fresh b under)]
  have count := dropped.atLevel_eq
  refine ⟨⟨dropped.level_eq.trans reflects.level_eq, dropped.size_eq.trans reflects.size_eq, ?_, ?_,
    by omega, dropped.lower_eq ▸ reflects.distinct, ?_⟩, by omega⟩
  · exact fun var marked => reflects.raised var ((dropped.marks_iff var).mp marked).1
  · intro b member counted'
    obtain ⟨counted', differs⟩ := (counts b).mp counted'
    rcases List.mem_cons.mp (reflects.waiting b member counted') with rfl | under
    · exact (differs rfl).elim
    · exact under
  · intro l
    rw [dropped.lower_eq, reflects.mem_lower_iff, dropped.level_eq]
    refine exists_congr fun b => and_congr_right fun member => and_congr_right fun _ =>
      and_congr_right fun lower => ?_
    rw [dropped.marks_iff, iff_self_and]
    intro _ same
    -- The variable dropped has one assignment, and that one is not of a lower level.
    obtain rfl := stacked.eq_of_var_eq member (within.subset (List.mem_cons_self ..)) same
    exact Nat.ne_of_lt lower (counts_iff.mp counted).1

/-- Adding a failed literal keeps the counters and tables right. -/
theorem added (reflects : work.Reflects t remaining) (stacked : Stacked t.stack)
    (within : remaining <:+ t.stack) (member : b ∈ t.stack) (same : b.lit = l.negate)
    (waiting : b.level = height t.stack → b ∈ remaining) (unmarked : ¬ work.Marks l.var)
    (raised : 0 < b.level) (added : Added work l b.level work') : work'.Reflects t remaining := by
  have sameVar := Assignment.var_eq_of_lit_eq_negate same
  have level := reflects.level_eq
  refine ⟨added.level_eq.trans level, added.size_eq.trans reflects.size_eq, ?_, ?_, ?_, ?_, ?_⟩
  · intro var marked
    rcases (added.marks_iff var).mp marked with marked | rfl
    · exact reflects.raised var marked
    · exact ⟨b, member, sameVar, raised⟩
  · intro c listed counted
    rcases (added.counts_iff stacked member same listed).mp counted with counted | ⟨rfl, top⟩
    · exact reflects.waiting c listed counted
    · exact waiting (top.trans level)
  · have bound := stacked.level_le_height member
    rw [added.countP_eq stacked within member same (fun top => waiting (top.trans level)) unmarked,
      added.atLevel_eq, reflects.atLevel_eq]
    exact if_congr (by omega) rfl rfl
  · rw [added.lower_eq]
    split
    · exact reflects.distinct
    · refine List.nodup_append.mpr ⟨reflects.distinct, List.pairwise_singleton _ _, ?_⟩
      intro other listed last single
      rw [List.mem_singleton.mp single]
      rintro rfl
      obtain ⟨c, listed', same', -, marked⟩ := (reflects.mem_lower_iff other).mp listed
      have equal := Assignment.var_eq_of_lit_eq_negate same'
      exact unmarked (equal ▸ marked)
  · intro other
    rw [added.lower_eq, added.level_eq]
    simp only [added.marks_iff, and_or_left, exists_or, ← reflects.mem_lower_iff]
    have only : ∀ c ∈ t.stack, c.var = l.var → c = b :=
      fun c listed equal => stacked.eq_of_var_eq listed member (equal.trans sameVar.symm)
    split
    · rename_i top
      refine (or_iff_left ?_).symm
      rintro ⟨c, listed, -, lower, equal⟩
      obtain rfl := only c listed equal
      omega
    · rename_i under
      rw [List.mem_append, List.mem_singleton]
      refine or_congr_right ⟨?_, ?_⟩
      · rintro rfl
        exact ⟨b, member, same, by omega, sameVar⟩
      · rintro ⟨c, listed, same', -, equal⟩
        obtain rfl := only c listed equal
        exact Lit.negate_injective (same'.symm.trans same)

/-- Failed literals are added one after the other, those of level zero aside. -/
theorem addAll_yields (reflects : work.Reflects t remaining) (coherent : t.Coherent)
    (within : remaining <:+ t.stack) (lits : List Lit)
    (fails : ∀ l ∈ lits, ∃ b ∈ t.stack, b.lit = l.negate ∧
      (b.level = height t.stack → b ∈ remaining)) :
    Yields (addAll t lits work) fun work' => work'.Reflects t remaining ∧
      ∀ var, work'.Marks var ↔
        work.Marks var ∨ (RaisedOn t.stack var ∧ ∃ l ∈ lits, l.var = var) := by
  induction lits generalizing work with
  | nil => exact yields_pure_iff.mpr ⟨reflects, by simp⟩
  | cons l rest ih =>
    obtain ⟨b, member, same, waiting⟩ := fails l (List.mem_cons_self ..)
    have sameVar := Assignment.var_eq_of_lit_eq_negate same
    rw [addAll]
    apply (add_yields coherent reflects.size_eq member same).bind
    intro middle step
    have marks : ∀ var, middle.Marks var ↔
        work.Marks var ∨ (RaisedOn t.stack var ∧ l.var = var) := by
      intro var
      rcases step with ⟨idle, rfl⟩ | ⟨-, raised, added⟩
      · refine (or_iff_left_of_imp ?_).symm
        rintro ⟨⟨c, listed, equal, raised⟩, rfl⟩
        refine idle.resolve_right fun bottom => ?_
        obtain rfl := coherent.stacked.eq_of_var_eq listed member (equal.trans sameVar.symm)
        omega
      · rw [added.marks_iff]
        refine or_congr_right ⟨?_, fun equal => equal.2.symm⟩
        rintro rfl
        exact ⟨⟨b, member, sameVar, raised⟩, rfl⟩
    have reflects' : middle.Reflects t remaining := by
      rcases step with ⟨-, rfl⟩ | ⟨unmarked, raised, added⟩
      · exact reflects
      · exact reflects.added coherent.stacked within member same waiting unmarked raised added
    apply (ih reflects' fun other listed => fails other (List.mem_cons_of_mem _ listed)).imp
    rintro work' ⟨reflects'', marks'⟩
    refine ⟨reflects'', fun var => ?_⟩
    rw [marks', marks, or_assoc, ← and_or_left]
    simp only [List.exists_mem_cons_iff]

end Reflects

end WorkingClause

end ClauseLearning
