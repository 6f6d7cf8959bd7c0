import ClauseLearning.Conflict.Analysis
import ClauseLearning.Proofs.Conflict.Working

/-! # Walking down the trail to the first unique implication point

Each resolution step of the walk replaces a literal of the current level by literals that failed before
it. As long as two literals of the clause under construction are of the current level, the one on top of
the trail was not the decision of that level, so it has an antecedent to resolve with. None of the ways in
which the walk could fail is ever met: what it does is a `Walk`, step by step down the trail, and what each
step keeps holds at its end, as that the clause is a consequence of the database (`Entailed`).
-/

namespace ClauseLearning.WorkingClause

/-- Every assignment satisfying the database makes a literal of the clause true, that is, the literal
on the trail of a marked variable false. -/
def Entailed (work : WorkingClause) (db : Database) (stack : List Assignment) : Prop :=
  ∀ assignment, db.SatisfiedBy assignment →
    ∃ a ∈ stack, work.Marks a.var ∧ a.lit.isTrue assignment = false

/-- What a step past an entry of the trail does to the clause: nothing if the variable does not occur, and
otherwise the clause is resolved with the one that forced the literal. -/
inductive Step (db : Database) (t : Trail) (a : Assignment) : WorkingClause → WorkingClause → Prop
  | passed {work : WorkingClause} : ¬ work.Marks a.var → Step db t a work work
  | resolved {work work' : WorkingClause} {id : Nat} : work.counts a = true → 1 < work.atLevel →
      a.reason = .implied id →
      (∀ var, work'.Marks var ↔ (work.Marks var ∧ var ≠ a.var) ∨
        (RaisedOn t.stack var ∧ ∃ l ∈ db.litsOf id, l ≠ a.lit ∧ l.var = var)) → Step db t a work work'

/-- A walk down the trail, each step of which is taken while a literal of the current level is left. -/
inductive Walk (db : Database) (t : Trail) :
    List Assignment → WorkingClause → List Assignment → WorkingClause → Prop
  | here {remaining : List Assignment} {work : WorkingClause} : Walk db t remaining work remaining work
  | down {a : Assignment} {below remaining : List Assignment} {work middle work' : WorkingClause} :
      work.Reflects t (a :: below) → a.level = height t.stack → Step db t a work middle →
      Walk db t below middle remaining work' → Walk db t (a :: below) work remaining work'

/-- The literal on top is the only one of the current level whose negation is in the clause. -/
structure ImplicationPoint (t : Trail) (a : Assignment) (below : List Assignment)
    (work : WorkingClause) : Prop where
  reflects : work.Reflects t (a :: below)
  counted : work.counts a = true
  single : work.atLevel = 1

section Entailed
variable {work work' : WorkingClause} {db : Database} {t : Trail} {a : Assignment} {lits : List Lit}

/-- A falsified clause, without its literals of level zero, is a consequence of the database. -/
theorem entailed_of_falsified {id : Nat} (coherent : t.Coherent) (grounded : Grounded db t.stack)
    (inBounds : id < db.size) (fails : ∀ l ∈ db.litsOf id, l.FailsOn t.stack)
    (marks : ∀ l ∈ db.litsOf id, RaisedOn t.stack l.var → work.Marks l.var) :
    work.Entailed db t.stack := by
  intro assignment satisfied
  obtain ⟨l, member, holds⟩ := Database.satisfiedBy_iff.mp satisfied id inBounds
  obtain ⟨b, listed, same⟩ := fails l member
  have sameVar := Assignment.var_eq_of_lit_eq_negate same
  have falsified : b.lit.isTrue assignment = false := by
    rw [same, Lit.isTrue_negate, holds]
    rfl
  refine ⟨b, listed, ?_, falsified⟩
  rw [sameVar]
  refine marks l member ⟨b, listed, sameVar, Nat.pos_of_ne_zero fun bottom => ?_⟩
  have forced := grounded.isTrue_of_level_zero coherent.stacked satisfied listed bottom
  rw [falsified] at forced
  cases forced

/-- Resolving with the clause that forced a literal gives a consequence of the database again. -/
theorem Entailed.resolve {id : Nat} {below : List Assignment} (entailed : work.Entailed db t.stack)
    (coherent : t.Coherent) (grounded : Grounded db t.stack) (within : a :: below <:+ t.stack)
    (listed : a.lit ∈ db.litsOf id)
    (fails : ∀ l ∈ db.litsOf id, l ≠ a.lit → l.FailsOn below)
    (kept : ∀ var, work.Marks var → var ≠ a.var → work'.Marks var)
    (marks : ∀ l ∈ db.litsOf id, l ≠ a.lit → RaisedOn t.stack l.var → work'.Marks l.var) :
    work'.Entailed db t.stack := by
  intro assignment satisfied
  have member := within.subset (List.mem_cons_self ..)
  have under := (List.suffix_cons a below).trans within
  obtain ⟨c, there, marked, falsified⟩ := entailed assignment satisfied
  by_cases same : c.var = a.var
  · obtain rfl := coherent.stacked.eq_of_var_eq there member same
    obtain ⟨l, inClause, holds⟩ :=
      Database.satisfiedBy_iff.mp satisfied id (Database.lt_size_of_mem listed)
    have differs : l ≠ c.lit := by
      rintro rfl
      rw [holds] at falsified
      cases falsified
    obtain ⟨b, lower, negated⟩ := fails l inClause differs
    have here := under.subset lower
    have sameVar := Assignment.var_eq_of_lit_eq_negate negated
    have falsified' : b.lit.isTrue assignment = false := by
      rw [negated, Lit.isTrue_negate, holds]
      rfl
    refine ⟨b, here, ?_, falsified'⟩
    rw [sameVar]
    refine marks l inClause differs ⟨b, here, sameVar, Nat.pos_of_ne_zero fun bottom => ?_⟩
    have forced := grounded.isTrue_of_level_zero coherent.stacked satisfied here bottom
    rw [falsified'] at forced
    cases forced
  · exact ⟨c, there, kept c.var marked same, falsified⟩

end Entailed

section Walk
variable {work work' : WorkingClause} {db : Database} {t : Trail} {a : Assignment}
  {below remaining remaining' : List Assignment}

/-- What each step of a walk keeps holds at its end. -/
theorem Walk.keeps {Holds : List Assignment → WorkingClause → Prop}
    (walk : Walk db t remaining work remaining' work') (within : remaining <:+ t.stack)
    (step : ∀ {a below work work'}, a :: below <:+ t.stack → work.Reflects t (a :: below) →
      a.level = height t.stack → Step db t a work work' → Holds (a :: below) work → Holds below work')
    (holds : Holds remaining work) : Holds remaining' work' := by
  induction walk with
  | here => exact holds
  | down reflects level taken _ ih =>
    exact ih ((List.suffix_cons _ _).trans within) (step within reflects level taken holds)

theorem Walk.suffix (walk : Walk db t remaining work remaining' work') : remaining' <:+ remaining := by
  induction walk with
  | here => exact List.suffix_rfl
  | down _ _ _ _ ih => exact ih.trans (List.suffix_cons _ _)

/-- As long as a literal of the current level is left, what comes next on the trail is of that level. -/
private theorem Reflects.level_head_eq (reflects : work.Reflects t (a :: below))
    (stacked : Stacked t.stack) (within : a :: below <:+ t.stack) (positive : 0 < work.atLevel) :
    a.level = work.level := by
  rw [reflects.atLevel_eq] at positive
  obtain ⟨b, member, counted⟩ := List.countP_pos_iff.mp positive
  have upper := stacked.level_le_height (within.subset (List.mem_cons_self ..))
  have lower := (stacked.suffix within).level_le_height member
  have top := (counts_iff.mp counted).1
  have level := reflects.level_eq
  simp only [height] at lower
  omega

/-- A decision is the last literal of its level on the way down. -/
private theorem Reflects.atLevel_eq_one (reflects : work.Reflects t (a :: below))
    (stacked : Stacked t.stack) (within : a :: below <:+ t.stack) (counted : work.counts a = true)
    (decision : a.reason = .decision) : work.atLevel = 1 := by
  rw [reflects.atLevel_eq, List.countP_cons_of_pos counted, Nat.add_eq_right, List.countP_eq_zero]
  intro b member counted'
  have lower := (stacked.suffix within).lt_of_decision decision member
  have level := (counts_iff.mp counted).1
  have level' := (counts_iff.mp counted').1
  omega

/-- A step keeps the clause a consequence of the database. -/
theorem Step.entailed (step : Step db t a work work') (entailed : work.Entailed db t.stack)
    (coherent : t.Coherent) (grounded : Grounded db t.stack) (within : a :: below <:+ t.stack) :
    work'.Entailed db t.stack := by
  cases step with
  | passed => exact entailed
  | resolved _ _ reason marks =>
    obtain ⟨listed, fails⟩ := (grounded.suffix within).1 _ reason
    refine entailed.resolve coherent grounded within listed fails ?_ ?_
    · exact fun var marked differs => (marks var).mpr (.inl ⟨marked, differs⟩)
    · exact fun l member differs raised => (marks l.var).mpr (.inr ⟨raised, l, member, differs, rfl⟩)

namespace ImplicationPoint

theorem eq_of_counts (point : ImplicationPoint t a below work) {b : Assignment}
    (member : b ∈ t.stack) (counted : work.counts b = true) : b = a := by
  rcases List.mem_cons.mp (point.reflects.waiting b member counted) with same | under
  · exact same
  · have count := point.reflects.atLevel_eq
    rw [point.single, List.countP_cons_of_pos point.counted] at count
    have zero : below.countP work.counts = 0 := by omega
    exact (List.countP_eq_zero.mp zero b under counted).elim

/-- The other literals failed at lower levels above zero. -/
theorem failed_below (point : ImplicationPoint t a below work) (stacked : Stacked t.stack) {l : Lit}
    (member : l ∈ work.lower) :
    ∃ b ∈ t.stack, b.lit = l.negate ∧ 0 < b.level ∧ b.level < height t.stack := by
  obtain ⟨b, listed, negated, under, marked⟩ := (point.reflects.mem_lower_iff l).mp member
  obtain ⟨c, listed', same, raised⟩ := point.reflects.raised _ marked
  obtain rfl := stacked.eq_of_var_eq listed' listed same
  exact ⟨c, listed, negated, raised, point.reflects.level_eq ▸ under⟩

end ImplicationPoint

/-- A resolution step can be taken if the literal on top is not the last one of the current level. -/
private theorem resolve_yields (coherent : t.Coherent) (grounded : Grounded db t.stack)
    (within : a :: below <:+ t.stack) (reflects : work.Reflects t (a :: below))
    (counted : work.counts a = true) (several : 1 < work.atLevel) {id : Nat}
    (reason : a.reason = .implied id) {antecedent : Clause} (same : antecedent.lits = db.litsOf id) :
    Yields (do addAll t (antecedent.lits.filter (· ≠ a.lit)) (← work.drop a.var)) fun work' =>
      Step db t a work work' ∧ work'.Reflects t below ∧ 0 < work'.atLevel := by
  have stacked := coherent.stacked
  have under := (List.suffix_cons a below).trans within
  have inBounds : a.var < work.marked.size :=
    reflects.size_eq ▸ coherent.var_lt (within.subset (List.mem_cons_self ..))
  obtain ⟨listed, fails⟩ := (grounded.suffix within).1 id reason
  apply (drop_yields inBounds).bind
  intro dropped drop
  obtain ⟨reflects', count⟩ := reflects.dropped stacked within counted drop
  have others : ∀ l ∈ antecedent.lits.filter (· ≠ a.lit), ∃ b ∈ t.stack, b.lit = l.negate ∧
      (b.level = height t.stack → b ∈ below) := by
    intro l member
    obtain ⟨member, differs⟩ := List.mem_filter.mp member
    obtain ⟨b, lower, negated⟩ := fails l (same ▸ member) (of_decide_eq_true differs)
    exact ⟨b, under.subset lower, negated, fun _ => lower⟩
  apply (reflects'.addAll_yields coherent under _ others).imp
  rintro next ⟨reflects'', marks⟩
  refine ⟨.resolved counted several reason fun var => ?_, reflects'', ?_⟩
  · simp only [marks, drop.marks_iff, same, List.mem_filter, decide_eq_true_eq, and_assoc]
  · have mono : below.countP dropped.counts ≤ below.countP next.counts := by
      apply List.countP_mono_left
      intro b _ counted
      obtain ⟨top, marked⟩ := counts_iff.mp counted
      refine counts_iff.mpr ⟨?_, (marks _).mpr (.inl marked)⟩
      rw [top, reflects'.level_eq, reflects''.level_eq]
    rw [← reflects'.atLevel_eq, ← reflects''.atLevel_eq] at mono
    omega

/-- The walk down the trail ends at a single literal of the current level. -/
theorem resolveDown_yields (coherent : t.Coherent) (grounded : Grounded db t.stack)
    (within : remaining <:+ t.stack) (reflects : work.Reflects t remaining)
    (positive : 0 < work.atLevel) :
    Yields (resolveDown db t remaining work) fun (outcome, _) => ∃ a below work',
      outcome = .ok (a.lit, work') ∧ Walk db t remaining work (a :: below) work' ∧
        ImplicationPoint t a below work' := by
  induction remaining generalizing work with
  | nil =>
    rw [reflects.atLevel_eq] at positive
    simp at positive
  | cons a below ih =>
    have stacked := coherent.stacked
    have under := (List.suffix_cons a below).trans within
    have inRange := coherent.var_lt (within.subset (List.mem_cons_self ..))
    have inBounds : a.var < work.marked.size := reflects.size_eq ▸ inRange
    have level := reflects.level_head_eq stacked within positive
    have top := level.trans reflects.level_eq
    simp only [resolveDown, fetch_of_lt inBounds, ok_bind, Bool.not_eq_true']
    split
    · rename_i unmarked
      have notMarks : ¬ work.Marks a.var := by simp [Marks, inBounds, unmarked]
      apply (ih under (reflects.pass notMarks) positive).imp
      rintro ⟨outcome, steps⟩ ⟨uip, rest, work', same, walk, point⟩
      exact ⟨uip, rest, work', same, .down reflects top (.passed notMarks) walk, point⟩
    rename_i marked
    have counted : work.counts a = true := by
      refine counts_iff.mpr ⟨level, ?_⟩
      simpa [Marks, inBounds] using marked
    rw [if_neg (not_not.mpr level)]
    split
    · rename_i single
      exact yields_pure_iff.mpr ⟨a, below, work, rfl, .here, reflects, counted, single⟩
    rename_i several
    cases reason : a.reason with
    | decision => exact (several (reflects.atLevel_eq_one stacked within counted reason)).elim
    | implied id =>
      have listed := ((grounded.suffix within).1 id reason).1
      apply (Database.clause_yields (Database.lt_size_of_mem listed)).bind
      intro antecedent same
      have resolved :=
        resolve_yields coherent grounded within reflects counted (by omega) reason same
      rw [← bind_assoc]
      apply resolved.bind
      rintro next ⟨step, reflects', positive'⟩
      apply (ih under reflects' positive').bind
      rintro ⟨outcome, steps⟩ ⟨uip, rest, work', rfl, walk, point⟩
      exact yields_pure_iff.mpr ⟨uip, rest, work', rfl, .down reflects top step walk, point⟩

end Walk

end ClauseLearning.WorkingClause
