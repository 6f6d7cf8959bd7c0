import ClauseLearning.Clause

/-! # The clause database

Clauses are numbered in the order in which they were added, and never removed. Learned clauses
carry, in addition, their own count. Where the clauses are visited one after the other, the input
clauses come first and the learned ones follow, each in the order of their numbers.
-/

namespace ClauseLearning

/-- The input clauses and those learned so far, in the order in which they were added. -/
structure Database where
  clauses : Array Clause := #[]
deriving Repr, Inhabited

namespace Database

/-- How many clauses the database holds. The next clause added gets this number. -/
def size (db : Database) : Nat := db.clauses.size

def isEmpty (db : Database) : Bool := db.clauses.isEmpty

def get? (db : Database) (id : Nat) : Option Clause := db.clauses[id]?

def clause (db : Database) (id : Nat) : Checked Clause :=
  match db.get? id with
  | some c => .ok c
  | none => .error .unknownClause

theorem lt_size_of_clause {db : Database} {id : Nat} {c : Clause} (found : db.clause id = .ok c) :
    id < db.size := by
  rw [clause] at found
  split at found
  · rename_i listed
    exact (Array.getElem?_eq_some_iff.mp listed).1
  · cases found

/-- The literals of the clause with a number, in their present order. A number outside the database
has none. -/
def litsOf (db : Database) (id : Nat) : List Lit :=
  match db.get? id with
  | some c => c.lits
  | none => []

/-- All clauses with their numbers, in visiting order: the input clauses, then the learned ones. -/
def numbered (db : Database) : List (Clause × Nat) :=
  let all := db.clauses.toList.zipIdx
  all.filter (fun entry => !entry.1.isLearned) ++ all.filter (fun entry => entry.1.isLearned)

def ids (db : Database) : List Nat := db.numbered.map Prod.snd

def inputs (db : Database) : List Clause := db.clauses.toList.filter fun c => !c.isLearned

def learned (db : Database) : List Clause := db.clauses.toList.filter fun c => c.isLearned

def learnedCount (db : Database) : Nat := db.learned.length

/-- The database with an input clause of the given literals added. -/
def addInput (db : Database) (lits : List Lit) : Database :=
  ⟨db.clauses.push (Clause.ofLits lits .input)⟩

/-- The database with a learned clause of the given literals added, which gets the next index. -/
def addLearned (db : Database) (lits : List Lit) : Database :=
  let index := db.learnedCount
  ⟨db.clauses.push (Clause.ofLits lits (.learned index))⟩

/-- The database with the literals of one clause put into another order. -/
def reorder (db : Database) (id : Nat) (lits : List Lit) : Database :=
  ⟨db.clauses.modify id fun c => { c with lits }⟩

end Database

end ClauseLearning
