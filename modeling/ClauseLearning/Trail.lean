import ClauseLearning.Lit
import ClauseLearning.TruthValue

/-! # The trail of assignments

The trail lists the literals made true so far, in the order in which they were made true. A decision
opens a new level; an implied literal belongs to the current one and names the clause that forced
it. Removing every level above a given one undoes exactly what was done since.

Beside the list itself the trail keeps tables over variables, the value and the place of each, so
that the value of a literal is one look-up, and a cursor to the first assignment whose consequences
watched-literal propagation has not drawn yet.
-/

namespace ClauseLearning

/-- Why a literal is on the trail. -/
inductive Reason where
  | decision
  /-- The clause with this number forced the literal. -/
  | implied (clause : Nat)
deriving DecidableEq, Repr, Inhabited

/-- One entry of the trail. -/
structure Assignment where
  /-- The literal made true. -/
  lit : Lit
  level : Nat
  reason : Reason
deriving DecidableEq, Repr, Inhabited

namespace Assignment

def var (a : Assignment) : Nat := a.lit.var

def value (a : Assignment) : Bool := !a.lit.negative

def isDecision (a : Assignment) : Bool := a.reason == .decision

def antecedent (a : Assignment) : Option Nat :=
  match a.reason with
  | .decision => none
  | .implied clause => some clause

/-- The text of an assignment, such as `x3 = true @ 2 (decision)`. -/
def text (a : Assignment) : String :=
  let reason := match a.reason with
    | .decision => "decision"
    | .implied _ => "implied"
  s!"x{a.var + 1} = {a.value} @ {a.level} ({reason})"

end Assignment

/-- The assignments made so far, with tables for looking them up. -/
structure Trail where
  entries : Array Assignment
  /-- For each level, how many assignments were there when it was opened. Level zero is open from
  the start, so the table is never empty. -/
  levelStarts : Array Nat
  values : Array TruthValue
  /-- The place of each variable among the entries. It means nothing for an unassigned one. -/
  positions : Array Nat
  /-- The entries before this one have been propagated along the watch lists. -/
  cursor : Nat
deriving Repr, Inhabited

namespace Trail

/-- The trail over a number of variables on which nothing is assigned. -/
def empty (vars : Nat) : Trail where
  entries := #[]
  levelStarts := #[0]
  values := Array.replicate vars .unknown
  positions := Array.replicate vars 0
  cursor := 0

def varCount (t : Trail) : Nat := t.values.size

def size (t : Trail) : Nat := t.entries.size

def isEmpty (t : Trail) : Bool := t.entries.isEmpty

def level (t : Trail) : Nat := t.levelStarts.size - 1

/-- The level to which the next assignment belongs: a decision opens the next level, and whatever is
implied stays on the current one. -/
def levelFor (t : Trail) : Reason → Nat
  | .decision => t.level + 1
  | .implied _ => t.level

/-- The trail with one more assignment. The variable has to be unassigned, and the assignment has to
be of the current level or, as a decision, of the next one. -/
def push (t : Trail) (a : Assignment) : Checked Trail := do
  let value ← fetch t.values a.var
  if value ≠ .unknown then throw (.assignedTwice a.var) else
  if a.level ≠ t.levelFor a.reason then throw .levelOutOfStep else
  let ⟨entries, starts, values, positions, cursor⟩ := t
  let values ← store values a.var (.ofBool a.value)
  let positions ← store positions a.var entries.size
  let starts := if a.isDecision then starts.push entries.size else starts
  return ⟨entries.push a, starts, values, positions, cursor⟩

def choose (t : Trail) (l : Lit) : Checked Trail := t.push ⟨l, t.level + 1, .decision⟩

def imply (t : Trail) (l : Lit) (clause : Nat) : Checked Trail := t.push ⟨l, t.level, .implied clause⟩

/-- The assignments made above a level, in trail order. -/
def above (t : Trail) (level : Nat) : List Assignment :=
  match t.levelStarts[level + 1]? with
  | some start => t.entries.toList.drop start
  | none => []

/-- The trail without the assignments above a level. -/
def backTo (t : Trail) (level : Nat) : Trail :=
  match t.levelStarts[level + 1]? with
  | none => t
  | some start =>
    { entries := t.entries.take start
      levelStarts := t.levelStarts.take (level + 1)
      values := (t.above level).foldl (fun values a => values.setIfInBounds a.var .unknown) t.values
      positions := t.positions
      cursor := min t.cursor (t.entries.take start).size }

def isAssigned (t : Trail) (var : Nat) : Checked Bool := do
  return (← fetch t.values var) != .unknown

/-- The value of a literal: that of its variable, turned round for a negative literal. -/
def valueOf (t : Trail) (l : Lit) : Checked TruthValue := do
  return (← fetch t.values l.var).xor (.ofSign l.negative)

/-- The place of a variable's assignment on the trail, if it has one. -/
def positionOf (t : Trail) (var : Nat) : Checked (Option Nat) := do
  if ← t.isAssigned var then return some (← fetch t.positions var) else return none

def entry (t : Trail) (position : Nat) : Checked Assignment := fetch t.entries position

def assignmentOf (t : Trail) (var : Nat) : Checked (Option Assignment) := do
  match ← t.positionOf var with
  | some position => return some (← t.entry position)
  | none => return none

def levelOf (t : Trail) (var : Nat) : Checked (Option Nat) := do
  return (← t.assignmentOf var).map Assignment.level

def allAssigned (t : Trail) : Bool := t.size == t.varCount

/-- The values of all variables, once every one is assigned. -/
def total? (t : Trail) : Option (Array Bool) :=
  if t.allAssigned then some (t.values.map fun value => value == .holds) else none

/-- Whether the levels never decrease along a list of assignments. -/
def levelsMonotone : List Assignment → Bool
  | a :: b :: rest => decide (a.level ≤ b.level) && levelsMonotone (b :: rest)
  | _ => true

/-- Whether the recorded levels never decrease from the bottom to the top of the trail. -/
def isMonotone (t : Trail) : Bool := levelsMonotone t.entries.toList

/-- The next literal to propagate along the watch lists, with the trail that has moved past it. -/
def nextToPropagate (t : Trail) : Option (Lit × Trail) :=
  match t.entries[t.cursor]? with
  | some a => some (a.lit, { t with cursor := t.cursor + 1 })
  | none => none

/-- The trail with nothing left to propagate. -/
def skipPropagation (t : Trail) : Trail := { t with cursor := t.size }

end Trail

end ClauseLearning
