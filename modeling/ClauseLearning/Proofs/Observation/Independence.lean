import ClauseLearning.Proofs.Observation.Lockstep

/-! # What a search comes to does not depend on who watches it

Steps of two searches that differ in nothing but their tracers keep them so, and so do whole runs.
In the end both have the same verdict and the same model, for two tracers of any two types, and the tracers
are related as they were at the start.
-/

namespace ClauseLearning

variable {σ τ : Type}

/-- The solvers differ in nothing but their tracers, which are related. -/
structure Solver.Tied (R : σ → τ → Prop) (s : Solver σ) (s' : Solver τ) : Prop where
  work : s.work.Tied R s'.work
  propagator_eq : s.propagator = s'.propagator
  branching_eq : s.branching = s'.branching
  verifyModel_eq : s.verifyModel = s'.verifyModel
  hasEmptyClause_eq : s.hasEmptyClause = s'.hasEmptyClause
  status_eq : s.status = s'.status

/-- The solvers differ in nothing but their tracers. -/
abbrev Solver.Alike (s : Solver σ) (s' : Solver τ) : Prop := s.Tied (fun _ _ => True) s'

/-- What is loaded differs in nothing but the tracers, which are related. -/
structure Loading.Tied (R : σ → τ → Prop) (loading : Loading σ) (loading' : Loading τ) : Prop where
  db_eq : loading.db = loading'.db
  propagator_eq : loading.propagator = loading'.propagator
  stats_eq : loading.stats = loading'.stats
  hasEmptyClause_eq : loading.hasEmptyClause = loading'.hasEmptyClause
  tracers : R loading.tracer loading'.tracer

/-- Both give the same result, and solvers that differ in nothing but their tracers, which are related. -/
def Solver.SameResult {α : Type} (R : σ → τ → Prop) (r : α × Solver σ) (r' : α × Solver τ) : Prop :=
  r.1 = r'.1 ∧ r.2.Tied R r'.2

/-- A conflict that is to be analysed is with a clause of the database. -/
def Phase.Within (db : Database) : Phase → Prop
  | .analyzing conflict => conflict < db.size
  | _ => True

/-- Both come to the same phase, in solvers that differ in nothing but their tracers, which are related. -/
def Solver.SamePhase (R : σ → τ → Prop) (r : Phase × Solver σ) (r' : Phase × Solver τ) : Prop :=
  SameResult R r r' ∧ r.1.Within r.2.work.db

variable {R : σ → τ → Prop}

namespace Solver.Tied
variable {s : Solver σ} {s' : Solver τ}

/-- Two solvers that differ in their tracers only have the same model. -/
theorem model_eq (tied : s.Tied R s') : s.model = s'.model := by
  rw [Solver.model, Solver.model, tied.status_eq, tied.work.trail_eq]

theorem confirm_eq (tied : s.Tied R s') (verdict : Verdict) :
    s.confirm verdict = s'.confirm verdict := by
  rw [Solver.confirm, Solver.confirm, Solver.verify, Solver.verify, tied.verifyModel_eq,
    tied.work.trail_eq, tied.work.db_eq]

/-- What two solvers tell their tracers makes no other difference. -/
theorem retold (tied : s.Tied R s') {tracer : σ} {tracer' : τ} (tracers : R tracer tracer') :
    Solver.Tied R { s with work := { s.work with tracer } }
      { s' with work := { s'.work with tracer := tracer' } } :=
  ⟨⟨tied.work.db_eq, tied.work.trail_eq, tied.work.stats_eq, tracers⟩, tied.propagator_eq,
    tied.branching_eq, tied.verifyModel_eq, tied.hasEmptyClause_eq, tied.status_eq⟩

/-- The one solver is the other one with a related tracer. -/
theorem exists_retold (tied : s.Tied R s') : ∃ tracer', R s.work.tracer tracer' ∧
    s' = ⟨⟨s.work.db, s.work.trail, s.work.stats, tracer'⟩, s.propagator, s.branching, s.verifyModel,
      s.hasEmptyClause, s.status⟩ := by
  obtain ⟨⟨_, _, _, tracer'⟩, _, _, _, _, _⟩ := s'
  obtain ⟨⟨rfl, rfl, rfl, tracers⟩, rfl, rfl, rfl, rfl, rfl⟩ := tied
  exact ⟨tracer', tracers, rfl⟩

theorem storeLearned (tied : s.Tied R s') (learned : List Lit) :
    Lockstep (Solver.Tied R) (s.storeLearned learned) (s'.storeLearned learned) := by
  obtain ⟨tracer', tracers, rfl⟩ := tied.exists_retold
  exact Lockstep.bind_same fun _ _ => ⟨⟨rfl, rfl, rfl, tracers⟩, rfl, rfl, rfl, rfl, rfl⟩

variable [Tracer σ] [Tracer τ] [Tracer.Keeps R]

theorem makeDecision (tied : s.Tied R s') (l : Lit) :
    Lockstep (Solver.Tied R) (s.makeDecision l) (s'.makeDecision l) := by
  obtain ⟨tracer', tracers, rfl⟩ := tied.exists_retold
  exact Lockstep.bind_same fun _ _ =>
    ⟨⟨rfl, rfl, rfl, Tracer.Keeps.event _ rfl tracers⟩, rfl, rfl, rfl, rfl, rfl⟩

theorem backtrack (tied : s.Tied R s') (level : Nat) :
    Lockstep (Solver.Tied R) (s.backtrack level) (s'.backtrack level) := by
  obtain ⟨tracer', tracers, rfl⟩ := tied.exists_retold
  exact Lockstep.bind_same fun _ _ =>
    ⟨⟨rfl, rfl, rfl, Tracer.Keeps.event _ rfl tracers⟩, rfl, rfl, rfl, rfl, rfl⟩

theorem bumpLearned (tied : s.Tied R s') (learned : List Lit) :
    Lockstep (Solver.Tied R) (s.bumpLearned learned) (s'.bumpLearned learned) := by
  obtain ⟨tracer', tracers, rfl⟩ := tied.exists_retold
  apply Lockstep.bind_same
  rintro ⟨decayed, branching⟩ -
  cases decayed with
  | false => exact ⟨⟨rfl, rfl, rfl, tracers⟩, rfl, rfl, rfl, rfl, rfl⟩
  | true => exact ⟨⟨rfl, rfl, rfl, Tracer.Keeps.message _ tracers⟩, rfl, rfl, rfl, rfl, rfl⟩

theorem learn (tied : s.Tied R s') (analysis : Analysis) :
    Lockstep (Lockstep (Solver.Tied R)) (s.learn analysis) (s'.learn analysis) := by
  obtain ⟨learned, level⟩ := analysis
  have level_eq : s.work.trail.level = s'.work.trail.level := congrArg Trail.level tied.work.trail_eq
  simp only [Solver.learn, level_eq]
  split
  · exact rfl
  · have told := tied.retold (Tracer.Keeps.detail (.learned learned level) rfl tied.work.tracers)
    refine (told.bumpLearned learned).bind fun _ _ bumped => ?_
    refine (bumped.backtrack level).bind fun _ _ returned => ?_
    exact (returned.storeLearned learned).bind fun _ _ stored => stored

theorem reportResolutions (tied : s.Tied R s') (steps : List Resolution) :
    (s.reportResolutions steps).Tied R (s'.reportResolutions steps) := by
  refine tied.retold ?_
  have tracers := tied.work.tracers
  generalize s.work.tracer = tracer at tracers
  generalize s'.work.tracer = tracer' at tracers
  induction steps generalizing tracer tracer' with
  | nil => exact tracers
  | cons step rest ih => exact ih _ _ (Tracer.Keeps.message _ tracers)

theorem noteConflict {conflict : Nat} (tied : s.Tied R s') (inBounds : conflict < s.work.db.size) :
    Lockstep (Solver.Tied R) (s.noteConflict conflict) (s'.noteConflict conflict) := by
  obtain ⟨tracer', tracers, rfl⟩ := tied.exists_retold
  rw [Solver.noteConflict, Solver.noteConflict, Database.report_of_lt inBounds,
    Database.report_of_lt inBounds]
  exact ⟨⟨rfl, rfl, rfl, Tracer.Keeps.detail _ rfl tracers⟩, rfl, rfl, rfl, rfl, rfl⟩

theorem conclude (tied : s.Tied R s') (verdict : Verdict) :
    (s.conclude verdict).Tied R (s'.conclude verdict) := by
  obtain ⟨tracer', tracers, rfl⟩ := tied.exists_retold
  exact ⟨⟨rfl, rfl, rfl, Tracer.Keeps.message _ (Tracer.Keeps.event _ rfl tracers)⟩, rfl, rfl, rfl, rfl,
    rfl⟩

theorem propagate (tied : s.Tied R s') : Lockstep (SamePhase R) s.propagate s'.propagate := by
  obtain ⟨work, propagator, branching, verifyModel, hasEmptyClause, status⟩ := s
  obtain ⟨work', _, _, _, _, _⟩ := s'
  obtain ⟨(tied : work.Tied R work'), rfl, rfl, rfl, rfl, rfl⟩ := tied
  apply (tied.propagate propagator).bind
  rintro ⟨conflict, propagator, work⟩ ⟨_, _, work'⟩ ⟨rfl, rfl, tied, has⟩
  refine ⟨⟨rfl, tied, rfl, rfl, rfl, rfl, rfl⟩, ?_⟩
  cases conflict with
  | none => trivial
  | some id => exact has id rfl

/-- A step of the search does not depend on the tracer. -/
theorem step {phase : Phase} (tied : s.Tied R s') (within : phase.Within s.work.db) :
    Lockstep (SamePhase R) (s.step phase) (s'.step phase) := by
  cases phase with
  | deciding =>
    simp only [Solver.step, tied.branching_eq, tied.work.trail_eq]
    apply Lockstep.bind_same
    rintro ⟨choice, branching⟩ -
    have tied : Solver.Tied R { s with branching } { s' with branching } :=
      ⟨tied.work, tied.propagator_eq, rfl, tied.verifyModel_eq, tied.hasEmptyClause_eq,
        tied.status_eq⟩
    cases choice with
    | none => exact ⟨⟨rfl, tied⟩, trivial⟩
    | some l => exact (tied.makeDecision l).bind fun _ _ tied => ⟨⟨rfl, tied⟩, trivial⟩
  | propagating => exact tied.propagate
  | analyzing conflict =>
    refine (tied.noteConflict within).bind fun s s' noted => ?_
    simp only [noted.work.trail_eq, noted.work.db_eq]
    split
    · exact ⟨⟨rfl, noted⟩, trivial⟩
    apply Lockstep.bind_same
    rintro ⟨outcome, steps⟩ -
    cases outcome with
    | error e => exact ⟨⟨rfl, noted.reportResolutions steps⟩, trivial⟩
    | ok analysis => exact ⟨⟨rfl, noted.reportResolutions steps⟩, trivial⟩
  | backtracking analysis =>
    refine (tied.learn analysis).bind fun outcome outcome' same => ?_
    cases outcome with
    | error e =>
      cases outcome' with
      | error e' =>
        cases same
        exact ⟨⟨rfl, tied⟩, trivial⟩
      | ok learned' => cases same
    | ok learned =>
      cases outcome' with
      | error e' => cases same
      | ok learned' => exact ⟨⟨rfl, same⟩, trivial⟩
  | finished outcome => exact ⟨⟨rfl, tied⟩, trivial⟩

theorem runRound (doublings : Nat) {phase : Phase} (tied : s.Tied R s') (within : phase.Within s.work.db) :
    Lockstep (SamePhase R) (s.runRound doublings phase) (s'.runRound doublings phase) := by
  induction doublings generalizing phase s s' with
  | zero => exact tied.step within
  | succ doublings ih =>
    rw [Solver.runRound, Solver.runRound]
    split
    · exact ⟨⟨rfl, tied⟩, within⟩
    apply (ih tied within).bind
    rintro ⟨middle, s⟩ ⟨_, s'⟩ ⟨⟨rfl, tied⟩, within⟩
    exact ih tied within

theorem runRounds (rounds doublings : Nat) {phase : Phase} (tied : s.Tied R s')
    (within : phase.Within s.work.db) :
    Lockstep (SamePhase R) (s.runRounds rounds doublings phase) (s'.runRounds rounds doublings phase) := by
  induction rounds generalizing doublings phase s s' with
  | zero => exact ⟨⟨rfl, tied⟩, within⟩
  | succ rounds ih =>
    rw [Solver.runRounds, Solver.runRounds]
    split
    · exact ⟨⟨rfl, tied⟩, within⟩
    apply (tied.runRound doublings within).bind
    rintro ⟨middle, s⟩ ⟨_, s'⟩ ⟨⟨rfl, tied⟩, within⟩
    exact ih (doublings + 1) tied within

theorem search (tied : s.Tied R s') : Lockstep (SameResult R) s.search s'.search := by
  rw [Solver.search, Solver.search, tied.work.trail_eq]
  have within : Phase.Within s.work.db .propagating := trivial
  apply (tied.runRounds _ 0 within).bind
  rintro ⟨phase, s⟩ ⟨_, s'⟩ ⟨⟨rfl, tied⟩, -⟩
  cases phase with
  | finished outcome => exact ⟨rfl, tied⟩
  | deciding => exact rfl
  | propagating => exact rfl
  | analyzing conflict => exact rfl
  | backtracking analysis => exact rfl

/-- What solving yields does not depend on the tracer. -/
theorem solve (tied : s.Tied R s') : Lockstep (SameResult R) s.solve s'.solve := by
  rw [Solver.solve, Solver.solve, tied.status_eq]
  cases s'.status with
  | some verdict => exact ⟨rfl, tied⟩
  | none =>
    have judged : Lockstep (SameResult R) s.judge s'.judge := by
      rw [Solver.judge, Solver.judge, tied.hasEmptyClause_eq]
      split
      · exact ⟨rfl, tied⟩
      · exact tied.search
    refine judged.bind ?_
    rintro ⟨outcome, s⟩ ⟨_, s'⟩ ⟨rfl, tied⟩
    cases outcome with
    | error e => exact ⟨rfl, tied⟩
    | ok verdict =>
      simp only [tied.confirm_eq]
      refine Lockstep.bind_same fun confirmed _ => ?_
      cases confirmed with
      | error e => exact ⟨rfl, tied⟩
      | ok _ => exact ⟨rfl, tied.conclude verdict⟩

end Solver.Tied

section Loading
variable [Tracer σ] [Tracer τ] [Tracer.Keeps R] {loading : Loading σ} {loading' : Loading τ}

theorem Loading.Tied.add (tied : loading.Tied R loading') (lits : List Lit) :
    Lockstep (Loading.Tied R) (loading.add lits) (loading'.add lits) := by
  obtain ⟨db, propagator, stats, tracer, hasEmptyClause⟩ := loading
  obtain ⟨_, _, _, tracer', _⟩ := loading'
  obtain ⟨rfl, rfl, rfl, rfl, (tracers : R tracer tracer')⟩ := tied
  simp only [Loading.add]
  split
  · exact ⟨rfl, rfl, rfl, rfl, tracers⟩
  split
  · exact ⟨rfl, rfl, rfl, rfl, Tracer.Keeps.message _ tracers⟩
  · exact Lockstep.bind_same fun _ _ => ⟨rfl, rfl, rfl, rfl, tracers⟩

theorem Loading.Tied.addAll (clauses : List (List Lit)) (tied : loading.Tied R loading') :
    Lockstep (Loading.Tied R) (Loading.addAll clauses loading) (Loading.addAll clauses loading') := by
  induction clauses generalizing loading loading' with
  | nil => exact tied
  | cons lits rest ih => exact (tied.add lits).bind fun _ _ tied => ih tied

/-- Solvers for one formula that are given related tracers differ in nothing else. -/
theorem Solver.new_tied (config : Config) (f : Formula) {tracer : σ} {tracer' : τ}
    (tracers : R tracer tracer') :
    Lockstep (Solver.Tied R) (Solver.new config f tracer) (Solver.new config f tracer') := by
  refine Lockstep.bind_same fun propagator _ => ?_
  have start : Loading.Tied R { propagator, tracer } { propagator, tracer := tracer' } :=
    ⟨rfl, rfl, rfl, rfl, tracers⟩
  apply (start.addAll f.clauses.toList).bind
  rintro ⟨db, propagator, stats, tracer, hasEmptyClause⟩ ⟨_, _, _, tracer', _⟩
    ⟨rfl, rfl, rfl, rfl, (tracers : R tracer tracer')⟩
  exact Lockstep.bind_same fun _ _ =>
    ⟨⟨rfl, rfl, rfl, Tracer.Keeps.message _ tracers⟩, rfl, rfl, rfl, rfl, rfl⟩

/-- Solvers for one formula that are given different tracers differ in nothing else. -/
theorem Solver.new_alike (config : Config) (f : Formula) (tracer : σ) (tracer' : τ) :
    Lockstep Solver.Alike (Solver.new config f tracer) (Solver.new config f tracer') :=
  Solver.new_tied config f trivial

end Loading

end ClauseLearning
