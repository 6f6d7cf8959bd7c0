import ClauseLearning.Clause

/-! # Errors of the engine

An `EngineError` says that the search contradicted itself. None is ever the fault of the input, and
none stands for an unsatisfiable formula.
-/

namespace ClauseLearning

/-- The ways in which the search can find itself inconsistent. -/
inductive EngineError where
  /-- Conflict analysis met a decision, on the variable with this number counted from one, where it
  needed a forced literal. -/
  | missingAntecedent (var : Nat)
  | uipNotFound (level : Nat)
  | noCurrentLevelLiteral (level : Nat)
  | invalidBacktrackLevel (level current : Nat)
  | incompleteAssignment (unassigned : Nat)
  | modelViolatesClause (clause : Clause)
deriving DecidableEq, Repr

def EngineError.message : EngineError → String
  | .missingAntecedent var => s!"implied variable x{var} has no antecedent clause"
  | .uipNotFound level =>
    s!"conflict analysis ran off the trail before reaching a UIP at level {level}"
  | .noCurrentLevelLiteral level =>
    s!"conflicting clause has no literal assigned at the current level {level}"
  | .invalidBacktrackLevel level current =>
    s!"backtrack level {level} is not below the current level {current}"
  | .incompleteAssignment unassigned => s!"search ended SAT with {unassigned} variables unassigned"
  | .modelViolatesClause clause => s!"model falsifies original clause {clause.text}"

end ClauseLearning
