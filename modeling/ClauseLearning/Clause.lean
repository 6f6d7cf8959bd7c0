import ClauseLearning.Exchange
import ClauseLearning.Lit

/-! # Clauses

A clause is a disjunction of distinct literals, together with where it came from. Which literals it
has is fixed when it is made; propagation may change their order, because the two literals that a
clause watches stand first.
-/

namespace ClauseLearning

inductive ClauseKind where
  | input
  /-- The clause was the learned clause with this number, counted from zero. -/
  | learned (index : Nat)
deriving DecidableEq, Repr, Inhabited

/-- A disjunction of distinct literals. -/
structure Clause where
  /-- The literals, the two watched ones first. -/
  lits : List Lit
  kind : ClauseKind
deriving DecidableEq, Repr, Inhabited

namespace Clause

/-- The clause with the given literals. Of a repeated literal the first occurrence stays. -/
def ofLits (lits : List Lit) (kind : ClauseKind) : Clause := ⟨lits.eraseDups, kind⟩

def size (c : Clause) : Nat := c.lits.length

def isEmpty (c : Clause) : Bool := c.lits.isEmpty

def isLearned (c : Clause) : Bool :=
  match c.kind with
  | .input => false
  | .learned _ => true

/-- Whether the clause has a literal together with its negation, so that everything satisfies it. -/
def isTautology (c : Clause) : Bool := c.lits.any fun l => c.lits.contains l.negate

def contains (c : Clause) (l : Lit) : Bool := c.lits.contains l

def litAt (c : Clause) (i : Nat) : Checked Lit :=
  match c.lits[i]? with
  | some l => .ok l
  | none => .error .indexOutOfBounds

def replaceAt (c : Clause) (i : Nat) (l : Lit) : Checked Clause :=
  if i < c.lits.length then .ok { c with lits := c.lits.set i l } else .error .indexOutOfBounds

def swapAt (c : Clause) (i j : Nat) : Checked Clause :=
  if i < c.lits.length ∧ j < c.lits.length then .ok { c with lits := exchange c.lits i j }
  else .error .indexOutOfBounds

/-- The text of a clause, such as `(1 | -2)`. -/
def text (c : Clause) : String := disjunctionText c.lits

/-- The text of a clause with its size and origin. -/
def detailedText (c : Clause) : String :=
  let kind := match c.kind with
    | .input => "Original"
    | .learned index => s!"Learned \x7b index: {index} \x7d"
  let lits := ",".intercalate (c.lits.map Lit.text)
  s!"Clause \x7b size: {c.size}, kind: {kind}, lits: {lits} \x7d"

end Clause

end ClauseLearning
