/-! # Configuration

How a search is to run: which propagation it uses, how it picks and signs its decisions, and whether
it checks a model before it reports one. No choice changes the verdict.
-/

namespace ClauseLearning

/-- How propagation finds the clauses that have become unit or conflicting. -/
inductive PropagationMode where
  | rescan
  | watchedLiterals
deriving DecidableEq, Repr, Inhabited

def PropagationMode.text : PropagationMode → String
  | .rescan => "Rescan"
  | .watchedLiterals => "WatchedLiterals"

/-- The sign of a decision on a variable that has no saved phase. -/
inductive Polarity where
  /-- The sign with which the variable occurs more often; on a tie, positive. -/
  | occurrence
  | positive
  | negative
deriving DecidableEq, Repr, Inhabited

structure BranchingConfig where
  /-- What each occurrence in a learned clause adds to the score of a variable. -/
  bump : Float := 1.0
  /-- How many clauses are learned from one decay of the scores to the next. -/
  decayInterval : Nat := 3
  decayFactor : Float := 0.5
  initialPolarity : Polarity := .occurrence
  /-- Whether a variable that loses its value is later decided with that value again. -/
  savePhases : Bool := false
deriving Repr, Inhabited

/-- How a search is to run. -/
structure Config where
  propagation : PropagationMode := .watchedLiterals
  branching : BranchingConfig := {}
  verifyModel : Bool := true
deriving Repr, Inhabited

/-- The branching configuration in force. An interval of zero counts as one: decay after every
learned clause. -/
def Config.decisions (config : Config) : BranchingConfig :=
  { config.branching with decayInterval := max config.branching.decayInterval 1 }

end ClauseLearning
