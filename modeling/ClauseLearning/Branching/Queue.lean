import ClauseLearning.Branching.Score

/-! # The queue of decision candidates

The queue lists variables with the rank of the score they were entered with, the best candidate
first: the higher rank, and on equal ranks the lower variable. Entering a variable puts it at its
place, so the best candidate is always at the head.
-/

namespace ClauseLearning

/-- A variable in the queue, with the rank it was entered with. -/
structure Candidate where
  /-- The rank of the variable's score when it was entered. -/
  rank : Int
  var : Nat
deriving DecidableEq, Repr, Inhabited

/-- Whether one candidate is to be decided before another. -/
def Candidate.before (a b : Candidate) : Bool :=
  decide (b.rank < a.rank) || (a.rank == b.rank && decide (a.var < b.var))

/-- The candidates, the best one first. -/
structure Queue where
  /-- The candidates in the order in which they are to be decided. -/
  candidates : List Candidate := []
deriving Repr, Inhabited

namespace Queue

def insertOrdered (c : Candidate) : List Candidate → List Candidate
  | [] => [c]
  | d :: rest => if c.before d then c :: d :: rest else d :: insertOrdered c rest

def insert (queue : Queue) (c : Candidate) : Queue := ⟨insertOrdered c queue.candidates⟩

def erase (queue : Queue) (var : Nat) : Queue :=
  ⟨queue.candidates.filter fun c => c.var != var⟩

/-- The queue with the rank of a variable replaced. -/
def update (queue : Queue) (c : Candidate) : Queue := (queue.erase c.var).insert c

def ofList (candidates : List Candidate) : Queue :=
  candidates.foldr (fun c queue => queue.insert c) {}

end Queue

end ClauseLearning
