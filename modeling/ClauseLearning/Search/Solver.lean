import ClauseLearning.Branching.Basic
import ClauseLearning.EngineError
import ClauseLearning.Formula
import ClauseLearning.Model
import ClauseLearning.Propagation.Propagator

/-! # The state of a solver

A solver is loaded from a formula: repeated literals go, tautologies are dropped, empty clauses are
only remembered, and every other clause enters the database, is attached to propagation and counts
towards the scores. What is loaded has the same satisfying assignments as the formula.
-/

namespace ClauseLearning

/-- A search and all that it works on. -/
structure Solver (σ : Type) where
  work : Workspace σ
  propagator : Propagator
  branching : Branching
  verifyModel : Bool
  hasEmptyClause : Bool
  status : Option Verdict

/-- What the clauses loaded so far amount to. -/
structure Loading (σ : Type) where
  db : Database := {}
  propagator : Propagator
  stats : Statistics := {}
  tracer : σ
  hasEmptyClause : Bool := false

namespace Loading

variable {σ : Type} [Tracer σ]

def add (loading : Loading σ) (lits : List Lit) : Checked (Loading σ) := do
  let ⟨db, propagator, stats, tracer, hasEmptyClause⟩ := loading
  let clause := Clause.ofLits lits .input
  if clause.isEmpty then return ⟨db, propagator, stats, tracer, true⟩
  if clause.isTautology then
    let stats := { stats with tautologies := stats.tautologies + 1 }
    return ⟨db, propagator, stats, Tracer.message (.droppedTautology clause) tracer, hasEmptyClause⟩
  let stats :=
    { stats with clauses := stats.clauses + 1, clauseLits := stats.clauseLits + clause.size }
  let id := db.size
  let db := db.addInput clause.lits
  return ⟨db, ← propagator.attach id db, stats, tracer, hasEmptyClause⟩

def addAll : List (List Lit) → Loading σ → Checked (Loading σ)
  | [], loading => return loading
  | lits :: rest, loading => do addAll rest (← loading.add lits)

end Loading

namespace Solver

variable {σ : Type} [Tracer σ]

/-- The solver for a formula, loaded and ready to run. -/
def new (config : Config) (f : Formula) (tracer : σ) : Checked (Solver σ) := do
  let propagator ← Propagator.empty config.propagation f.varCount
  let start : Loading σ := { propagator, tracer }
  let ⟨db, propagator, stats, tracer, hasEmptyClause⟩ ← start.addAll f.clauses.toList
  let tracer := Tracer.message (.loaded stats.clauses f.varCount propagator.mode) tracer
  let branching ← Branching.new config.decisions f.varCount db
  return {
    work := ⟨db, .empty f.varCount, stats, tracer⟩
    propagator
    branching
    verifyModel := config.verifyModel
    hasEmptyClause
    status := none }

/-- The model found, once the verdict is that there is one. -/
def model (s : Solver σ) : Option Model :=
  match s.status with
  | some .sat => s.work.trail.total?.map Model.mk
  | _ => none

/-- The model read off the entries of the trail, in which an unassigned variable is false. -/
def modelOfEntries (t : Trail) : Model :=
  ⟨t.entries.toList.foldl (fun values a => values.setIfInBounds a.var a.value)
    (Array.replicate t.varCount false)⟩

/-- The first of the clauses that a model does not satisfy, if any. -/
def firstFalsified (m : Model) : List Clause → Checked (Option Clause)
  | [] => return none
  | clause :: rest => do
    if ← m.satisfies clause.lits then firstFalsified m rest else return some clause

/-- Checks the model that the trail amounts to against every input clause. -/
def verify (s : Solver σ) : Checked (Except EngineError Unit) := do
  match ← firstFalsified (modelOfEntries s.work.trail) s.work.db.inputs with
  | some clause => return .error (.modelViolatesClause clause)
  | none => return .ok ()

end Solver

end ClauseLearning
