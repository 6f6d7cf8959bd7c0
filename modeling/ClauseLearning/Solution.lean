import ClauseLearning.Observation.Recorder
import ClauseLearning.Search.Run

/-! # Solving a formula in one call -/

namespace ClauseLearning

/-- A verdict with its witness. -/
inductive Solution where
  | sat (model : Model)
  | unsat
deriving DecidableEq, Repr

/-- Solves a formula. One with an empty clause is refuted without a search. -/
def Formula.solve (f : Formula) (config : Config) : Checked (Except EngineError Solution) := do
  if f.hasEmptyClause then return .ok .unsat
  let (outcome, s) ← (← Solver.new config f ()).solve
  match outcome with
  | .error e => return .error e
  | .ok .unsat => return .ok .unsat
  | .ok .sat =>
    match s.model with
    | some model => return .ok (.sat model)
    | none =>
      return .error (.incompleteAssignment (s.work.trail.varCount - s.work.trail.size))

end ClauseLearning
