/-! # Counters of a run -/

namespace ClauseLearning

/-- What a run has done so far and how large its database has become. -/
structure Statistics where
  decisions : Nat := 0
  propagations : Nat := 0
  conflicts : Nat := 0
  backtracks : Nat := 0
  decays : Nat := 0
  /-- Input clauses kept. -/
  clauses : Nat := 0
  clauseLits : Nat := 0
  tautologies : Nat := 0
  learned : Nat := 0
  learnedLits : Nat := 0
  maxLevel : Nat := 0
deriving DecidableEq, Repr, Inhabited

def Statistics.text (s : Statistics) : String :=
  s!"clauses: {s.clauses} ({s.clauseLits} lits, {s.tautologies} tautologies dropped)\n" ++
  s!"decisions: {s.decisions}\tpropagations: {s.propagations}\tconflicts: {s.conflicts}\n" ++
  s!"learnts: {s.learned} ({s.learnedLits} lits)\tbacktracks: {s.backtracks}\tdecays: {s.decays}\n" ++
  s!"max level: {s.maxLevel}"

end ClauseLearning
