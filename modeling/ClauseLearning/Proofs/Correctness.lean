import ClauseLearning.Proofs.Observation.Independence
import ClauseLearning.Proofs.Search.Verdict

/-! # What a solver answers

The main results: a verdict is right, there is one for every formula that can be built over a variable
count that the codes of literals allow, and it comes after a bounded number of steps whatever the
heuristic picks. Nothing is asked of the configuration or of the tracer.
-/

namespace ClauseLearning

/-- All four clauses over two variables. Refuting them takes a conflict under a decision and another one
at level zero. -/
def square : Formula :=
  ⟨2, #[[⟨0, false⟩, ⟨1, false⟩], [⟨0, true⟩, ⟨1, false⟩], [⟨0, false⟩, ⟨1, true⟩],
    [⟨0, true⟩, ⟨1, true⟩]]⟩

theorem square_built : square.Built :=
  .given (show Formula.ofClauses [[1, 2], [-1, 2], [1, -2], [-1, -2]] = .ok (.ok square) by
    decide +kernel)

/-- A tautology, a clause with a repeated literal, and clauses that the first variable satisfies more
often when it is true although it has to be false. -/
def detour : Formula :=
  ⟨3, #[[⟨0, false⟩, ⟨0, true⟩], [⟨0, true⟩, ⟨1, false⟩], [⟨0, true⟩, ⟨1, true⟩],
    [⟨0, false⟩, ⟨2, false⟩, ⟨2, false⟩], [⟨0, false⟩, ⟨2, false⟩, ⟨1, false⟩],
    [⟨0, false⟩, ⟨2, false⟩, ⟨1, true⟩]]⟩

theorem detour_built : detour.Built :=
  .given (show Formula.ofClauses [[1, -1], [-1, 2], [-1, -2], [1, 3, 3], [1, 3, 2], [1, 3, -2]] =
    .ok (.ok detour) by decide +kernel)

/-- The solution reports the verdict and the model that a solver has. -/
inductive Solution.Reports : Solution → Verdict → Option Model → Prop
  | sat {m : Model} : Reports (.sat m) .sat (some m)
  | unsat {model : Option Model} : Reports .unsat .unsat model

namespace Solver
variable {σ : Type} [Tracer σ] {f : Formula} {config : Config} {s s' : Solver σ}

/-- Solving a formula in one call reports what any solver for the formula answers. -/
theorem solve_reports {tracer : σ} {verdict : Verdict} (built : f.Built)
    (small : f.varCount ≤ variableLimit) (loaded : Solver.new config f tracer = .ok s)
    (answered : s.solve = .ok (.ok verdict, s')) :
    ∃ solution, f.solve config = .ok (.ok solution) ∧ solution.Reports verdict s'.model := by
  have solved := (Session.loaded loaded).solved_of_eq built small answered
  rw [Formula.solve]
  cases empty : f.hasEmptyClause with
  | true =>
    cases verdict with
    | unsat => exact ⟨.unsat, rfl, .unsat⟩
    | sat =>
      obtain ⟨m, -, -, satisfied⟩ := solved.sat rfl
      exact (not_satisfiable_of_hasEmptyClause empty ⟨_, satisfied⟩).elim
  | false =>
    obtain ⟨t, loaded', fresh'⟩ := new_yields built small config ()
    obtain ⟨⟨outcome, t'⟩, answered', -⟩ := fresh'.solve_yields small
    have alike := (new_alike config f tracer ()).related loaded loaded'
    obtain ⟨same, alike'⟩ := alike.solve.related answered answered'
    obtain rfl : Except.ok verdict = outcome := same
    rw [alike'.model_eq]
    simp only [loaded', ok_bind, answered']
    cases verdict with
    | unsat => exact ⟨.unsat, rfl, .unsat⟩
    | sat =>
      obtain ⟨m, model, -⟩ := solved.sat rfl
      rw [← alike'.model_eq, model]
      exact ⟨.sat m, rfl, .sat⟩

/-- A solver that answers that there is no model is right, whatever it decided and learned on the way. -/
theorem unsat_sound (built : f.Built) (small : f.varCount ≤ variableLimit)
    (session : Session f config s) (answered : s.solve = .ok (.ok .unsat, s')) : ¬ f.Satisfiable :=
  (session.solved_of_eq built small answered).unsat rfl

theorem unsat_sound_square : square.Built ∧ square.varCount ≤ variableLimit ∧
    ∃ s s' : Solver Recorder, Session square {} s ∧ s.solve = .ok (.ok .unsat, s') ∧
      ¬ square.Satisfiable := by
  have small : square.varCount ≤ variableLimit := by decide
  have run : (new {} square (Recorder.mk #[]) >>= solve).map Prod.fst = .ok (.ok .unsat) := by
    decide +kernel
  obtain ⟨s, s', loaded, answered⟩ := exists_of_bind_fst_eq run
  exact ⟨square_built, small, s, s', .loaded loaded, answered,
    unsat_sound square_built small (.loaded loaded) answered⟩

/-- A solver that answers that there is a model has one: it gives every variable of the formula a value
and satisfies every clause of the formula, tautologies included, whether or not it was checked. -/
theorem sat_sound (built : f.Built) (small : f.varCount ≤ variableLimit)
    (session : Session f config s) (answered : s.solve = .ok (.ok .sat, s')) :
    ∃ m, s'.model = some m ∧ m.varCount = f.varCount ∧ f.SatisfiedBy m.toAssignment ∧
      ∀ clause ∈ f.clauses.toList, m.satisfies clause = .ok true := by
  obtain ⟨m, model, size, satisfied⟩ := (session.solved_of_eq built small answered).sat rfl
  refine ⟨m, model, size, satisfied, fun clause member => ?_⟩
  refine (m.satisfies_eq_ok_true_iff clause fun l inClause => ?_).mpr (satisfied clause member)
  exact size.symm ▸ built.inRange clause member l inClause

theorem sat_sound_detour : detour.Built ∧ detour.varCount ≤ variableLimit ∧
    ∃ s s' : Solver Recorder, Session detour { propagation := .rescan, verifyModel := false } s ∧
      s.solve = .ok (.ok .sat, s') ∧
      ∃ m, s'.model = some m ∧ m.varCount = detour.varCount ∧ detour.SatisfiedBy m.toAssignment ∧
        ∀ clause ∈ detour.clauses.toList, m.satisfies clause = .ok true := by
  have small : detour.varCount ≤ variableLimit := by decide
  have run : (new { propagation := .rescan, verifyModel := false } detour (Recorder.mk #[]) >>=
      solve).map Prod.fst = .ok (.ok .sat) := by
    decide +kernel
  obtain ⟨s, s', loaded, answered⟩ := exists_of_bind_fst_eq run
  exact ⟨detour_built, small, s, s', .loaded loaded, answered,
    sat_sound detour_built small (.loaded loaded) answered⟩

/-- A solver can be loaded from the formula and, asked once or again, answers with a verdict: neither a
fault nor an engine error comes up. Solving the formula in one call answers the same. -/
theorem never_fails (built : f.Built) (small : f.varCount ≤ variableLimit) (config : Config)
    (tracer : σ) :
    (∀ t : Solver σ, Session f config t → ∃ verdict t', t.solve = .ok (.ok verdict, t')) ∧
      ∃ s verdict s' solution, new config f tracer = .ok s ∧ s.solve = .ok (.ok verdict, s') ∧
        f.solve config = .ok (.ok solution) ∧ solution.Reports verdict s'.model := by
  refine ⟨fun t session => session.exists_verdict built small, ?_⟩
  obtain ⟨s, loaded, -⟩ := new_yields built small config tracer
  obtain ⟨verdict, s', answered⟩ := (Session.loaded loaded).exists_verdict built small
  obtain ⟨solution, same, reports⟩ := solve_reports built small loaded answered
  exact ⟨s, verdict, s', solution, loaded, answered, same, reports⟩

theorem never_fails_detour : detour.Built ∧ detour.varCount ≤ variableLimit ∧
    (∀ t : Solver Recorder, Session detour {} t → ∃ verdict t', t.solve = .ok (.ok verdict, t')) ∧
      ∃ (s : Solver Recorder) (verdict : Verdict) (s' : Solver Recorder) (solution : Solution),
        new {} detour (Recorder.mk #[]) = .ok s ∧ s.solve = .ok (.ok verdict, s') ∧
        detour.solve {} = .ok (.ok solution) ∧ solution.Reports verdict s'.model :=
  ⟨detour_built, by decide, never_fails detour_built (by decide) {} (Recorder.mk #[])⟩

/-- The search ends with a verdict. Whichever literals of unassigned variables are picked, and whatever
becomes of scores, preferred signs and candidates, every step up to the verdict is made without a fault,
so that the loops within it end before their limits, and there are no more steps than the bound. -/
theorem search_terminates (built : f.Built) (small : f.varCount ≤ variableLimit) (config : Config)
    (tracer : σ) :
    ∃ s, new config f tracer = .ok s ∧
      (∃ verdict s' steps, s.search = .ok (.ok verdict, s') ∧
        FreePath steps .propagating s (.finished (.ok verdict)) s') ∧
      ∀ steps phase t, FreePath steps .propagating s phase t →
        steps ≤ stepBound f.varCount ∧
        ((∃ verdict, phase = .finished (.ok verdict)) ∨
          (∃ choice, t.work.trail.Permits choice) ∧
          ∀ b choice, b.Fit f.varCount → t.work.trail.Permits choice →
            ∃ phase' t', guidedStep b choice phase t = .ok (phase', t')) := by
  obtain ⟨s, loaded, fresh⟩ := new_yields built small config tracer
  refine ⟨s, loaded, ?_, fun steps phase t path => ?_⟩
  · obtain ⟨⟨outcome, s'⟩, ended, verdict, steps, rfl, path, -⟩ :=
      search_yields small fresh.valid fresh.affords fresh.fit fresh.offers
    exact ⟨verdict, s', steps, ended, path⟩
  · obtain ⟨valid, bounded⟩ := path.valid small fresh.valid
    refine ⟨bounded _ fresh.affords, ?_⟩
    cases finished : phase.isFinished with
    | true =>
      obtain ⟨outcome, rfl⟩ := Phase.eq_finished finished
      obtain ⟨verdict, rfl, -⟩ := valid
      exact .inl ⟨verdict, rfl⟩
    | false =>
      refine .inr ⟨t.work.trail.exists_permits, fun b choice fit permitted => ?_⟩
      obtain ⟨⟨phase', t'⟩, stepped, -⟩ :=
        guidedStep_yields valid small finished fit fun _ => permitted
      exact ⟨phase', t', stepped⟩

theorem search_terminates_square : square.Built ∧ square.varCount ≤ variableLimit ∧
    ∃ s : Solver Recorder, new {} square (Recorder.mk #[]) = .ok s ∧
      (∃ verdict s' steps, s.search = .ok (.ok verdict, s') ∧
        FreePath steps .propagating s (.finished (.ok verdict)) s') ∧
      ∀ steps phase t, FreePath steps .propagating s phase t →
        steps ≤ stepBound square.varCount ∧
        ((∃ verdict, phase = .finished (.ok verdict)) ∨
          (∃ choice, t.work.trail.Permits choice) ∧
          ∀ b choice, b.Fit square.varCount → t.work.trail.Permits choice →
            ∃ phase' t', guidedStep b choice phase t = .ok (phase', t')) :=
  ⟨square_built, by decide, search_terminates square_built (by decide) {} (Recorder.mk #[])⟩

end Solver

end ClauseLearning
