import ClauseLearning.Conflict.Analysis
import ClauseLearning.Search.Solver

/-! # The steps of a search

A search is in one of four phases until it is finished: deciding, propagating, analysing a conflict,
or going back with what was learned from it. A step goes from one phase to the next.
-/

namespace ClauseLearning

/-- Where a search is. -/
inductive Phase where
  | deciding
  | propagating
  /-- The clause with this number was found falsified. -/
  | analyzing (conflict : Nat)
  /-- A clause was derived from the conflict, which the search has to go back for. -/
  | backtracking (analysis : Analysis)
  | finished (outcome : Except EngineError Verdict)

/-- What follows propagation: the next decision, or the analysis of the conflict found. -/
def Phase.afterPropagation : Option Nat → Phase
  | none => .deciding
  | some conflict => .analyzing conflict

def Phase.isFinished : Phase → Bool
  | .finished _ => true
  | _ => false

namespace Solver

variable {σ : Type} [Tracer σ]

def makeDecision (s : Solver σ) (l : Lit) : Checked (Solver σ) := do
  let ⟨⟨db, trail, stats, tracer⟩, propagator, branching, verifyModel, hasEmptyClause, status⟩ := s
  let trail ← trail.choose l
  let level := trail.level
  let stats :=
    { stats with decisions := stats.decisions + 1, maxLevel := max stats.maxLevel level }
  let tracer := Tracer.event (.decision l level) tracer
  return ⟨⟨db, trail, stats, tracer⟩, propagator, branching, verifyModel, hasEmptyClause, status⟩

/-- Takes back the assignments above a level and makes their variables candidates again. -/
def backtrack (s : Solver σ) (level : Nat) : Checked (Solver σ) := do
  let ⟨⟨db, trail, stats, tracer⟩, propagator, branching, verifyModel, hasEmptyClause, status⟩ := s
  let source := trail.level
  let branching ← Branching.releaseAll (trail.above level) branching
  let trail := trail.backTo level
  let stats := { stats with backtracks := stats.backtracks + 1 }
  let tracer := Tracer.event (.backtrack source level) tracer
  return ⟨⟨db, trail, stats, tracer⟩, propagator, branching, verifyModel, hasEmptyClause, status⟩

/-- Raises the scores for a learned clause, and counts and reports a decay. -/
def bumpLearned (s : Solver σ) (learned : List Lit) : Checked (Solver σ) := do
  let ⟨⟨db, trail, stats, tracer⟩, propagator, branching, verifyModel, hasEmptyClause, status⟩ := s
  let (decayed, branching) ← branching.learn learned
  if decayed then
    let stats := { stats with decays := stats.decays + 1 }
    let tracer := Tracer.message (.decayed branching.config.decayFactor) tracer
    return ⟨⟨db, trail, stats, tracer⟩, propagator, branching, verifyModel, hasEmptyClause, status⟩
  else
    return ⟨⟨db, trail, stats, tracer⟩, propagator, branching, verifyModel, hasEmptyClause, status⟩

/-- Adds a learned clause to the database and to propagation. -/
def storeLearned (s : Solver σ) (learned : List Lit) : Checked (Solver σ) := do
  let ⟨⟨db, trail, stats, tracer⟩, propagator, branching, verifyModel, hasEmptyClause, status⟩ := s
  let id := db.size
  let db := db.addLearned learned
  let stats :=
    { stats with learned := stats.learned + 1, learnedLits := stats.learnedLits + learned.length }
  let propagator ← propagator.attach id db
  return ⟨⟨db, trail, stats, tracer⟩, propagator, branching, verifyModel, hasEmptyClause, status⟩

/-- Goes back for a learned clause and stores it. The next propagation asserts its first literal. -/
def learn (s : Solver σ) (analysis : Analysis) : Checked (Except EngineError (Solver σ)) := do
  let current := s.work.trail.level
  let ⟨learned, level⟩ := analysis
  if current ≤ level then return .error (.invalidBacktrackLevel level current)
  let event := Event.learned learned level
  let s := { s with work := { s.work with tracer := Tracer.detail event s.work.tracer } }
  let s ← s.bumpLearned learned
  let s ← s.backtrack level
  return .ok (← s.storeLearned learned)

def reportResolutions (s : Solver σ) (steps : List Resolution) : Solver σ :=
  let tracer := steps.foldl
    (fun tracer step => Tracer.message (.resolving step.pivot step.antecedent) tracer) s.work.tracer
  { s with work := { s.work with tracer } }

def noteConflict (s : Solver σ) (conflict : Nat) : Checked (Solver σ) := do
  let ⟨⟨db, trail, stats, tracer⟩, propagator, branching, verifyModel, hasEmptyClause, status⟩ := s
  let stats := { stats with conflicts := stats.conflicts + 1 }
  let tracer ← db.report conflict (.conflict · trail.level) tracer
  return ⟨⟨db, trail, stats, tracer⟩, propagator, branching, verifyModel, hasEmptyClause, status⟩

/-- Propagates, which leads either to the next decision or to a conflict. -/
def propagate (s : Solver σ) : Checked (Phase × Solver σ) := do
  let ⟨work, propagator, branching, verifyModel, hasEmptyClause, status⟩ := s
  let ⟨conflict, propagator, work⟩ ← propagator.propagate work
  return (.afterPropagation conflict, ⟨work, propagator, branching, verifyModel, hasEmptyClause, status⟩)

/-- One step of the search. A conflict at level zero refutes the formula, since nothing is left to
undo; having nothing to decide satisfies it, since nothing is in conflict. -/
def step (phase : Phase) (s : Solver σ) : Checked (Phase × Solver σ) := do
  match phase with
  | .deciding =>
    let (choice, branching) ← s.branching.pick s.work.trail
    let s := { s with branching }
    match choice with
    | none => return (.finished (.ok .sat), s)
    | some l => return (.propagating, ← s.makeDecision l)
  | .propagating => s.propagate
  | .analyzing conflict =>
    let s ← s.noteConflict conflict
    if s.work.trail.level = 0 then return (.finished (.ok .unsat), s)
    let (outcome, steps) ← analyze conflict s.work.db s.work.trail
    let s := s.reportResolutions steps
    match outcome with
    | .error e => return (.finished (.error e), s)
    | .ok analysis => return (.backtracking analysis, s)
  | .backtracking analysis =>
    match ← s.learn analysis with
    | .error e => return (.finished (.error e), s)
    | .ok s => return (.propagating, s)
  | .finished outcome => return (.finished outcome, s)

/-- Going back for a learned clause raises scores, takes back assignments and stores the clause, one
after the other. -/
theorem exists_of_learn {s s' : Solver σ} {analysis : Analysis}
    (learned : s.learn analysis = .ok (.ok s')) :
    ∃ bumped returned,
      bumpLearned { s with work := { s.work with
        tracer := Tracer.detail (.learned analysis.learned analysis.backtrackLevel) s.work.tracer } }
        analysis.learned = .ok bumped ∧
      bumped.backtrack analysis.backtrackLevel = .ok returned ∧
      returned.storeLearned analysis.learned = .ok s' := by
  rw [learn] at learned
  split at learned
  · cases learned
  obtain ⟨bumped, raised, onward⟩ := Checked.bind_eq_ok_iff.mp learned
  obtain ⟨returned, went, onward⟩ := Checked.bind_eq_ok_iff.mp onward
  obtain ⟨stored, kept, same⟩ := Checked.bind_eq_ok_iff.mp onward
  cases same
  exact ⟨bumped, returned, raised, went, kept⟩

/-- A conflict that has been noted is counted and reported. -/
theorem eq_of_noteConflict {s s' : Solver σ} {conflict : Nat} (noted : s.noteConflict conflict = .ok s') :
    s' = { s with work := { s.work with
      stats := { s.work.stats with conflicts := s.work.stats.conflicts + 1 }
      tracer := Tracer.detail (.conflict (s.work.db.litsOf conflict) s.work.trail.level) s.work.tracer } } := by
  obtain ⟨tracer, reported, same⟩ := Checked.bind_eq_ok_iff.mp noted
  cases same
  obtain ⟨-, rfl⟩ := Database.report_eq_ok_iff.mp reported
  rfl

/-- A conflict refutes the formula at level zero, and is analysed above it. -/
theorem exists_of_step_analyzing {s s' : Solver σ} {conflict : Nat} {phase' : Phase}
    (stepped : s.step (.analyzing conflict) = .ok (phase', s')) :
    ∃ noted, s.noteConflict conflict = .ok noted ∧
      ((s.work.trail.level = 0 ∧ phase' = .finished (.ok .unsat) ∧ s' = noted) ∨
        (0 < s.work.trail.level ∧ ∃ outcome steps,
          analyze conflict s.work.db s.work.trail = .ok (outcome, steps) ∧
          s' = noted.reportResolutions steps ∧
          phase' = match outcome with
            | .error e => .finished (.error e)
            | .ok analysis => .backtracking analysis)) := by
  obtain ⟨noted, counted, onward⟩ := Checked.bind_eq_ok_iff.mp stepped
  refine ⟨noted, counted, ?_⟩
  obtain rfl := eq_of_noteConflict counted
  split at onward
  · rename_i bottom
    cases onward
    exact .inl ⟨bottom, rfl, rfl⟩
  · rename_i above
    obtain ⟨⟨outcome, steps⟩, analyzed, onward⟩ := Checked.bind_eq_ok_iff.mp onward
    refine .inr ⟨Nat.pos_of_ne_zero above, outcome, steps, analyzed, ?_⟩
    cases outcome <;> cases onward <;> exact ⟨rfl, rfl⟩

/-- A finished search stays as it is. -/
@[simp] theorem step_finished (outcome : Except EngineError Verdict) (s : Solver σ) :
    step (.finished outcome) s = .ok (.finished outcome, s) := rfl

end Solver

end ClauseLearning
