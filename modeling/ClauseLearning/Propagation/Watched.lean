import ClauseLearning.Propagation.Workspace
import ClauseLearning.Watch

/-! # Propagation along watch lists

Each clause of two or more literals watches its first two. When a literal is put on the trail, only
the clauses that watch its negation are visited. A visit puts the falsified literal second and looks
for a literal further on that does not fail, to watch instead; if there is none, the first literal is
forced, or the clause is falsified. A clause whose blocker holds is not visited at all.
-/

namespace ClauseLearning

/-- The first literal that does not fail, with the list in which another literal takes its place. -/
def replaceUnfailing (t : Trail) (substitute : Lit) : List Lit → Checked (Option (Lit × List Lit))
  | [] => return none
  | l :: rest => do
    if (← t.valueOf l) ≠ .fails then return some (l, substitute :: rest)
    let replaced ← replaceUnfailing t substitute rest
    return replaced.map fun (found, rest) => (found, l :: rest)

/-- The literal to watch instead of a failed one, with the remaining literals, among which the failed
one takes its place. None is looked for if the other watched literal, of the given value, holds. -/
def newWatch (t : Trail) (failed : Lit) (value : TruthValue) (rest : List Lit) :
    Checked (Option (Lit × List Lit)) :=
  if value = .holds then return none else replaceUnfailing t failed rest

/-- The watch lists next to the workspace that propagation along them works on. -/
structure WatchedWorkspace (σ : Type) where
  watches : WatchTable
  work : Workspace σ

/-- What comes of visiting a clause because a literal it watches has failed. -/
inductive Visit (σ : Type) where
  | kept (watcher : Watcher) (state : WatchedWorkspace σ)
  | moved (state : WatchedWorkspace σ)
  /-- The clause watches the literal still, and all its literals fail. -/
  | falsified (watcher : Watcher) (state : WatchedWorkspace σ)

/-- The literals of a clause with the failed one second, the other watched one first, and the rest.
The failed literal has to be watched, that is, to be one of the first two. -/
def orient (failed : Lit) : List Lit → Checked (Lit × List Lit)
  | first :: second :: rest =>
    if first = failed then return (second, rest)
    else if second = failed then return (first, rest)
    else throw .watchOutOfPlace
  | _ => throw .indexOutOfBounds

namespace WatchedWorkspace

variable {σ : Type} [Tracer σ]

/-- Visits the clause of a watcher after a literal that it watches has failed. -/
def visit (state : WatchedWorkspace σ) (failed : Lit) (watcher : Watcher) : Checked (Visit σ) := do
  let ⟨watches, work⟩ := state
  if (← work.trail.valueOf watcher.blocker) = .holds then return .kept watcher ⟨watches, work⟩
  let clause ← work.db.clause watcher.clause
  let (first, rest) ← orient failed clause.lits
  let value ← work.trail.valueOf first
  match ← newWatch work.trail failed value rest with
  | some (found, rest) =>
    let work := work.reorder watcher.clause (first :: found :: rest)
    return .moved ⟨← watches.watch found watcher.clause first, work⟩
  | none =>
    let work := work.reorder watcher.clause (first :: failed :: rest)
    let watcher := { watcher with blocker := first }
    match value with
    | .holds => return .kept watcher ⟨watches, work⟩
    | .unknown => return .kept watcher ⟨watches, ← work.imply first watcher.clause⟩
    | .fails => return .falsified watcher ⟨watches, work⟩

/-- Visits the clauses of a list of watchers in turn, up to the first one found falsified. Yields its
number, if any, and the watchers to keep: those whose clause watches the literal still and those not
visited. -/
def visitAll (failed : Lit) :
    List Watcher → WatchedWorkspace σ → Checked (Option Nat × List Watcher × WatchedWorkspace σ)
  | [], state => return (none, [], state)
  | watcher :: rest, state => do
    match ← state.visit failed watcher with
    | .kept watcher state =>
      let (conflict, kept, state) ← visitAll failed rest state
      return (conflict, watcher :: kept, state)
    | .moved state => visitAll failed rest state
    | .falsified watcher state => return (some watcher.clause, watcher :: rest, state)

/-- Draws the consequences of a literal that has been put on the trail: visits every clause that
watches its negation. -/
def propagateLit (state : WatchedWorkspace σ) (l : Lit) :
    Checked (Option Nat × WatchedWorkspace σ) := do
  let ⟨watches, work⟩ := state
  let watchers ← watches.watchers l
  let watches ← watches.put l []
  let (conflict, kept, ⟨watches, work⟩) ← visitAll l.negate watchers ⟨watches, work⟩
  return (conflict, ⟨← watches.put l kept, work⟩)

/-- Propagates the literals of the trail from the cursor on, at most the given number of them, until
none is left. A falsified clause ends it and moves the cursor to the end. -/
def drain : Nat → WatchedWorkspace σ → Checked (Option Nat × WatchedWorkspace σ)
  | 0, _ => throw .stepLimit
  | steps + 1, ⟨watches, ⟨db, trail, stats, tracer⟩⟩ => do
    match trail.nextToPropagate with
    | none => return (none, ⟨watches, ⟨db, trail, stats, tracer⟩⟩)
    | some (l, trail) =>
      match ← propagateLit ⟨watches, ⟨db, trail, stats, tracer⟩⟩ l with
      | (some id, ⟨watches, work⟩) =>
        return (some id, ⟨watches, { work with trail := work.trail.skipPropagation }⟩)
      | (none, state) => drain steps state

end WatchedWorkspace

end ClauseLearning
