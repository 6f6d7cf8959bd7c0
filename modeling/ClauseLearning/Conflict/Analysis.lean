import ClauseLearning.Conflict.Working
import ClauseLearning.Database
import ClauseLearning.EngineError
import ClauseLearning.Exchange

/-! # Conflict analysis

The implication graph is not stored: each forced literal on the trail names the clause that forced
it. Analysis walks down the trail from the top and, at each variable of the clause under
construction, resolves with the clause that forced it, until one literal of the current level is
left. That literal belongs to the first unique implication point. The clause learned asserts its
negation once the search has returned to the highest level of the other literals.
-/

namespace ClauseLearning

structure Analysis where
  /-- The clause learned. Its first literal is the asserted one; the second, if there is one, is of
  the highest level among the others. -/
  learned : List Lit
  backtrackLevel : Nat
deriving DecidableEq, Repr

/-- One resolution step of an analysis: a literal of the trail, and the clause that forced it. -/
structure Resolution where
  pivot : Lit
  antecedent : Clause
deriving DecidableEq, Repr

namespace WorkingClause

/-- Walks down the trail, the given entries being those not passed yet, the latest first. Yields the
unique implication point with the clause reached there, and the resolution steps taken. -/
def resolveDown (db : Database) (t : Trail) :
    List Assignment → WorkingClause →
      Checked (Except EngineError (Lit × WorkingClause) × List Resolution)
  | [], work => return (.error (.uipNotFound work.level), [])
  | a :: below, work => do
    if !(← fetch work.marked a.var) then resolveDown db t below work
    else if a.level ≠ work.level then return (.error (.uipNotFound work.level), [])
    else if work.atLevel = 1 then return (.ok (a.lit, work), [])
    else
      match a.reason with
      | .decision => return (.error (.missingAntecedent (a.var + 1)), [])
      | .implied id =>
        let antecedent ← db.clause id
        let work ← addAll t (antecedent.lits.filter (· ≠ a.lit)) (← work.drop a.var)
        let (outcome, steps) ← resolveDown db t below work
        return (outcome, ⟨a.lit, antecedent⟩ :: steps)

end WorkingClause

/-- The levels of literals on a trail. An unassigned literal counts as being of level zero. -/
def levelsOf (t : Trail) : List Lit → Checked (List Nat)
  | [] => return []
  | l :: rest => do return (← t.levelOf l.var).getD 0 :: (← levelsOf t rest)

/-- The place and the value of the first greatest number of a list whose first number stands at the
given place, if it is greater than the best so far. -/
def firstGreatest : List Nat → Nat → Nat × Nat → Nat × Nat
  | [], _, best => best
  | x :: rest, place, best => firstGreatest rest (place + 1) (if best.2 < x then (place, x) else best)

/-- The level to return to for a learned clause whose first literal is the asserted one: the highest
level of the others, or zero if there are none. The first literal of that level is moved to the
second place, so that the clause can watch it. -/
def backtrackTarget (t : Trail) (learned : List Lit) : Checked (Nat × List Lit) := do
  if learned.length < 2 then return (0, learned)
  let levels ← levelsOf t learned.tail
  let (place, level) := firstGreatest levels 1 (1, 0)
  return (level, exchange learned 1 place)

/-- Analyses the conflict at the clause with a number, all of whose literals fail. Yields the clause
to learn, and the resolution steps that lead to it. -/
def analyze (conflict : Nat) (db : Database) (t : Trail) :
    Checked (Except EngineError Analysis × List Resolution) := do
  let clause ← db.clause conflict
  let work ← WorkingClause.addAll t clause.lits (.empty t.varCount t.level)
  if work.atLevel = 0 then return (.error (.noCurrentLevelLiteral t.level), [])
  match ← work.resolveDown db t t.entries.toList.reverse with
  | (.error e, steps) => return (.error e, steps)
  | (.ok (uip, work), steps) =>
    let (backtrackLevel, learned) ← backtrackTarget t (uip.negate :: work.lower)
    return (.ok ⟨learned, backtrackLevel⟩, steps)

end ClauseLearning
