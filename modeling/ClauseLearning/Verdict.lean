/-! # Verdicts -/

namespace ClauseLearning

/-- The answer to the question whether a formula has a satisfying assignment. -/
inductive Verdict where
  | sat
  | unsat
deriving DecidableEq, Repr, Inhabited

def Verdict.text : Verdict → String
  | .sat => "SAT"
  | .unsat => "UNSAT"

end ClauseLearning
