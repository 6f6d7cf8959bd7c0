import ClauseLearning.Search.Step

/-! # Running a search to its end

A search makes steps until it is finished. Steps are made in rounds, each of up to twice as many as
the one before, so that the bound on all of them may be exponential in the number of variables at no
cost: a search that ends early ends the whole. Over `n` variables the trail, read as a word over
"open", "decided" and "implied", grows in lexicographic order with every assignment, so there are
fewer than `3 ^ n` turns of decision, conflict and return.
-/

namespace ClauseLearning.Solver

variable {σ : Type} [Tracer σ]

/-- Makes up to `2 ^ doublings` steps of a search, or fewer if it finishes. -/
def runRound : Nat → Phase → Solver σ → Checked (Phase × Solver σ)
  | 0, phase, s => step phase s
  | doublings + 1, phase, s => do
    if phase.isFinished then return (phase, s)
    let (phase, s) ← runRound doublings phase s
    runRound doublings phase s

/-- A finished search stays as it is, however many steps are allowed. -/
@[simp] theorem runRound_finished (doublings : Nat) (outcome : Except EngineError Verdict)
    (s : Solver σ) : runRound doublings (.finished outcome) s = .ok (.finished outcome, s) := by
  cases doublings with
  | zero => exact step_finished outcome s
  | succ doublings => rfl

/-- Makes a number of rounds of a search, or fewer if it finishes. The first round makes up to
`2 ^ doublings` steps, and each later one up to twice as many as the one before. -/
def runRounds : Nat → Nat → Phase → Solver σ → Checked (Phase × Solver σ)
  | 0, _, phase, s => return (phase, s)
  | rounds + 1, doublings, phase, s => do
    if phase.isFinished then return (phase, s)
    let (phase, s) ← runRound doublings phase s
    runRounds rounds (doublings + 1) phase s

/-- A finished search stays as it is, however many rounds are allowed. -/
@[simp] theorem runRounds_finished (rounds doublings : Nat)
    (outcome : Except EngineError Verdict) (s : Solver σ) :
    runRounds rounds doublings (.finished outcome) s = .ok (.finished outcome, s) := by
  cases rounds <;> rfl

/-- Searches for a satisfying assignment, starting with what is forced without any decision. -/
def search (s : Solver σ) : Checked (Except EngineError Verdict × Solver σ) := do
  let (phase, s) ← runRounds (2 * s.work.trail.varCount + 6) 0 .propagating s
  match phase with
  | .finished outcome => return (outcome, s)
  | _ => throw .stepLimit

/-- The verdict on the formula, which an empty clause gives without a search. -/
def judge (s : Solver σ) : Checked (Except EngineError Verdict × Solver σ) :=
  if s.hasEmptyClause then return (.ok .unsat, s) else s.search

/-- Checks a verdict against the input clauses, if there is a model to check and checking is on. -/
def confirm (s : Solver σ) (verdict : Verdict) : Checked (Except EngineError Unit) :=
  if verdict = .sat ∧ s.verifyModel then s.verify else return .ok ()

def conclude (s : Solver σ) (verdict : Verdict) : Solver σ :=
  let ⟨⟨db, trail, stats, tracer⟩, propagator, branching, verifyModel, hasEmptyClause, _⟩ := s
  let tracer := Tracer.event (.finished verdict) tracer
  let summary := Message.concluded verdict stats.decisions stats.conflicts stats.learned
  let tracer := Tracer.message summary tracer
  ⟨⟨db, trail, stats, tracer⟩, propagator, branching, verifyModel, hasEmptyClause, some verdict⟩

/-- Decides the formula. Once there is a verdict, it is given again without another search. -/
def solve (s : Solver σ) : Checked (Except EngineError Verdict × Solver σ) := do
  match s.status with
  | some verdict => return (.ok verdict, s)
  | none =>
    let (outcome, s) ← s.judge
    match outcome with
    | .error e => return (.error e, s)
    | .ok verdict =>
      match ← s.confirm verdict with
      | .error e => return (.error e, s)
      | .ok () => return (.ok verdict, s.conclude verdict)

end ClauseLearning.Solver
