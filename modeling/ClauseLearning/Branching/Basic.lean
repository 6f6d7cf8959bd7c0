import ClauseLearning.Branching.Queue
import ClauseLearning.Config
import ClauseLearning.Database
import ClauseLearning.Trail

/-! # Picking decisions

Every variable has a score, which starts as the number of its occurrences in the input clauses. A
learned clause raises the scores of its variables, and after every so many learned clauses all scores
are multiplied with a factor. A decision is on the unassigned variable of the highest score, the
lowest one on a tie, with the preferred sign of that variable.

The candidates wait in a queue, which may also hold variables that have been assigned since: they are
passed over when they come up, and entered again when they lose their value.
-/

namespace ClauseLearning

/-- The scores and preferred signs of all variables, and the queue of candidates. -/
structure Branching where
  config : BranchingConfig
  scores : Array Float
  polarity : Array Bool
  /-- The candidates for the next decision. Every unassigned variable is one. -/
  queue : Queue
  queued : Array Bool
  sinceDecay : Nat
deriving Repr, Inhabited

structure Occurrences where
  positive : Array Nat
  negative : Array Nat
deriving Repr, Inhabited

namespace Occurrences

def countBytes : Nat := 8

def zero (vars : Nat) : Checked Occurrences := do
  return ⟨← newTable countBytes vars 0, ← newTable countBytes vars 0⟩

/-- The counts with the given literals counted, too. -/
def count : List Lit → Occurrences → Checked Occurrences
  | [], seen => return seen
  | l :: rest, ⟨positive, negative⟩ => do
    if l.negative then
      count rest ⟨positive, ← store negative l.var ((← fetch negative l.var) + 1)⟩
    else
      count rest ⟨← store positive l.var ((← fetch positive l.var) + 1), negative⟩

end Occurrences

/-- The sign preferred for a variable with the given counts, before any phase is saved. -/
def Polarity.prefers (polarity : Polarity) (positive negative : Nat) : Bool :=
  match polarity with
  | .occurrence => decide (negative ≤ positive)
  | .positive => true
  | .negative => false

/-- The queue is filled with the variables below this number only. -/
def Branching.varLimit : Nat := UInt32.size

namespace Branching

def candidate (b : Branching) (var : Nat) : Candidate := ⟨scoreRank (b.scores.getD var 0), var⟩

/-- The same scores with the queue made anew of the variables selected. Their number counts modulo
`varLimit`. -/
def refill (b : Branching) (keep : Nat → Bool) : Branching :=
  let eligible := (List.range (b.scores.size % varLimit)).filter keep
  { b with
    queue := .ofList (eligible.map b.candidate)
    queued := eligible.foldl (fun queued var => queued.setIfInBounds var true)
      (Array.replicate b.scores.size false) }

/-- The scores at the start of a search over a number of variables, with every variable queued. -/
def new (config : BranchingConfig) (vars : Nat) (db : Database) : Checked Branching := do
  let inputLits := db.inputs.flatMap Clause.lits
  let ⟨positive, negative⟩ ← Occurrences.count inputLits (← Occurrences.zero vars)
  let start : Branching :=
    { config
      scores := positive.zipWith (fun p n => Float.ofNat (p + n)) negative
      polarity := positive.zipWith config.initialPolarity.prefers negative
      queue := {}
      queued := #[]
      sinceDecay := 0 }
  return start.refill fun _ => true

/-- Takes candidates off the queue up to the first unassigned one. Yields that variable, if there is
one, with the candidates left and the table of those queued. -/
def firstUnassigned (t : Trail) :
    List Candidate → Array Bool → Checked (Option Nat × List Candidate × Array Bool)
  | [], queued => return (none, [], queued)
  | c :: rest, queued => do
    let queued ← store queued c.var false
    if ← t.isAssigned c.var then firstUnassigned t rest queued
    else return (some c.var, rest, queued)

/-- Picks the literal to decide: the unassigned candidate of the highest score with its preferred
sign, or none if no candidate is unassigned. -/
def pick (b : Branching) (t : Trail) : Checked (Option Lit × Branching) := do
  let (chosen, candidates, queued) ← firstUnassigned t b.queue.candidates b.queued
  let b := { b with queue := ⟨candidates⟩, queued }
  match chosen with
  | none => return (none, b)
  | some var => return (some (← Lit.ofVar var !(← fetch b.polarity var)), b)

/-- Makes the value of an assignment the preferred sign of its variable, if phases are saved. -/
def savePhase (b : Branching) (a : Assignment) : Checked Branching := do
  if b.config.savePhases then return { b with polarity := ← store b.polarity a.var a.value }
  return b

/-- Makes the variable of an assignment that was taken back a candidate again, and saves its phase if
phases are saved. -/
def release (b : Branching) (a : Assignment) : Checked Branching := do
  let b ← b.savePhase a
  if ← fetch b.queued a.var then return b
  return { b with queue := b.queue.insert (b.candidate a.var), queued := ← store b.queued a.var true }

def releaseAll : List Assignment → Branching → Checked Branching
  | [], b => return b
  | a :: rest, b => do releaseAll rest (← b.release a)

def bump (b : Branching) (var : Nat) : Checked Branching := do
  let score ← fetch b.scores var
  let b := { b with scores := ← store b.scores var (score + b.config.bump) }
  if ← fetch b.queued var then return { b with queue := b.queue.update (b.candidate var) }
  return b

def bumpAll : List Lit → Branching → Checked Branching
  | [], b => return b
  | l :: rest, b => do bumpAll rest (← b.bump l.var)

/-- Multiplies every score with the factor of the configuration and puts the queue in order again. -/
def decay (b : Branching) : Branching :=
  let queued := b.queued
  let b := { b with scores := b.scores.map (· * b.config.decayFactor), sinceDecay := 0 }
  b.refill fun var => queued.getD var false

/-- Takes note of a learned clause: raises the scores of its variables, and decays all scores if it is
time to. Yields whether it did. -/
def learn (b : Branching) (learned : List Lit) : Checked (Bool × Branching) := do
  let b ← bumpAll learned b
  let sinceDecay := b.sinceDecay + 1
  if sinceDecay < b.config.decayInterval then return (false, { b with sinceDecay })
  return (true, b.decay)

end Branching

end ClauseLearning
