import ClauseLearning.Propagation.Workspace

/-! # Propagation by rescanning

The plainest form of unit propagation: go through all clauses, input clauses first, put the last
undetermined literal of each unit clause on the trail, and start over until a pass finds nothing to
add. A falsified clause ends it at once. Every pass but the last adds an assignment, so one pass more
than there are variables is always enough.
-/

namespace ClauseLearning

variable {σ : Type} [Tracer σ]

/-- Goes through the clauses with the given numbers once. Yields the first one that is falsified, if
any, and the workspace with what the unit clauses before it force. -/
def rescanPass : List Nat → Workspace σ → Checked (Option Nat × Workspace σ)
  | [], work => return (none, work)
  | id :: rest, work => do
    match ← work.status id with
    | .conflicting => return (some id, work)
    | .unit l => rescanPass rest (← work.imply l id)
    | .satisfied | .unresolved => rescanPass rest work

/-- Repeats the pass over all clauses, at most the given number of times, until it adds nothing. -/
def rescanPasses : Nat → Workspace σ → Checked (Option Nat × Workspace σ)
  | 0, _ => throw .stepLimit
  | passes + 1, work => do
    let before := work.trail.size
    match ← rescanPass work.db.ids work with
    | (some id, work) => return (some id, work)
    | (none, work) => if work.trail.size = before then return (none, work) else rescanPasses passes work

/-- Propagates until nothing changes. Yields the first clause found falsified, if any. -/
def rescan (work : Workspace σ) : Checked (Option Nat × Workspace σ) :=
  rescanPasses (work.trail.varCount + 1) work

end ClauseLearning
