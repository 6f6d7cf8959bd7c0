import ClauseLearning.Propagation.Rescan
import ClauseLearning.Propagation.Watched

/-! # Unit propagation

A `Propagator` offers the two forms of unit propagation behind one operation. Along watch lists,
clauses that no watch would lead to are queued when they are attached and looked at first: clauses of
one literal, and learned clauses, which force a literal right after the return to a lower level.
-/

namespace ClauseLearning

/-- The bookkeeping of unit propagation. -/
structure Propagator where
  mode : PropagationMode
  /-- The watch lists, which rescanning leaves empty. -/
  watches : WatchTable
  /-- The clauses to look at before the watch lists are followed, in order. -/
  pending : List Nat
deriving Repr, Inhabited

structure Propagated (σ : Type) where
  /-- The number of the clause found falsified, if any. -/
  conflict : Option Nat
  propagator : Propagator
  work : Workspace σ

namespace Propagator

/-- The propagator over a number of variables to which no clause is attached. -/
def empty (mode : PropagationMode) (vars : Nat) : Checked Propagator := do
  let lits := match mode with
    | .rescan => 0
    | .watchedLiterals => literalCount vars
  return ⟨mode, ← WatchTable.empty lits, []⟩

/-- Makes the clause with a number known to propagation. Of a learned clause the first literal has to
be the asserted one, and the second one of the highest level among the others. -/
def attach (propagator : Propagator) (id : Nat) (db : Database) : Checked Propagator := do
  match propagator with
  | ⟨.rescan, _, _⟩ => return propagator
  | ⟨.watchedLiterals, watches, pending⟩ =>
    let clause ← db.clause id
    let watches ← watches.watchFirstTwo id clause.lits
    let pending := if clause.size = 1 ∨ clause.isLearned then pending ++ [id] else pending
    return ⟨.watchedLiterals, watches, pending⟩

variable {σ : Type} [Tracer σ]

/-- Looks at pending clauses in turn, up to the first one that is falsified. Yields its number, if
any, with the clauses not looked at, and the workspace with what the unit clauses force. -/
def settle : List Nat → Workspace σ → Checked (Option Nat × List Nat × Workspace σ)
  | [], work => return (none, [], work)
  | id :: rest, work => do
    match ← work.status id with
    | .conflicting => return (some id, rest, work)
    | .unit l => settle rest (← work.imply l id)
    | .satisfied | .unresolved => settle rest work

/-- A pass over clauses settles them, but does not tell which ones are left. -/
theorem rescanPass_eq_settle (ids : List Nat) (work : Workspace σ) :
    rescanPass ids work = do
      let (conflict, _, work') ← settle ids work
      return (conflict, work') := by
  induction ids generalizing work with
  | nil => rfl
  | cons id rest ih =>
    rw [rescanPass, settle, bind_assoc]
    refine bind_congr fun status => ?_
    cases status with
    | conflicting => rfl
    | unit l =>
      rw [bind_assoc]
      exact bind_congr ih
    | satisfied | unresolved => exact ih work

/-- Propagates until nothing changes. Yields the first clause found falsified, if any. -/
def propagate (propagator : Propagator) (work : Workspace σ) : Checked (Propagated σ) := do
  match propagator with
  | ⟨.rescan, watches, pending⟩ =>
    let (conflict, work) ← rescan work
    return ⟨conflict, ⟨.rescan, watches, pending⟩, work⟩
  | ⟨.watchedLiterals, watches, pending⟩ =>
    match ← settle pending work with
    | (some id, pending, work) =>
      return ⟨some id, ⟨.watchedLiterals, watches, pending⟩,
        { work with trail := work.trail.skipPropagation }⟩
    | (none, pending, work) =>
      let steps := work.trail.varCount + 1
      let (conflict, ⟨watches, work⟩) ← WatchedWorkspace.drain steps ⟨watches, work⟩
      return ⟨conflict, ⟨.watchedLiterals, watches, pending⟩, work⟩

end Propagator

end ClauseLearning
