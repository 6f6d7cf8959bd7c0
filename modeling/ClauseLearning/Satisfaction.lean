import ClauseLearning.Database
import ClauseLearning.Formula
import ClauseLearning.Model

/-! # Satisfaction

An assignment gives every variable a value. It satisfies a disjunction if it makes one of its
literals true, and a formula or a database if it satisfies all clauses. Satisfaction does not depend
on the order of literals or on how often they are repeated, so neither removing repetitions nor
reordering for the watch lists changes what a clause says.
-/

namespace ClauseLearning

def Lit.isTrue (assignment : Nat → Bool) (l : Lit) : Bool := assignment l.var != l.negative

/-- The assignment makes one of the literals true. -/
def Satisfies (assignment : Nat → Bool) (lits : List Lit) : Prop :=
  ∃ l ∈ lits, l.isTrue assignment = true

/-- The assignment satisfies every clause of the formula. -/
def Formula.SatisfiedBy (f : Formula) (assignment : Nat → Bool) : Prop :=
  ∀ clause ∈ f.clauses.toList, Satisfies assignment clause

/-- Some assignment satisfies every clause of the formula. -/
def Formula.Satisfiable (f : Formula) : Prop := ∃ assignment, f.SatisfiedBy assignment

/-- The assignment satisfies every clause of the database. -/
def Database.SatisfiedBy (db : Database) (assignment : Nat → Bool) : Prop :=
  ∀ clause ∈ db.clauses.toList, Satisfies assignment clause.lits

/-- The assignment that a model is. Variables that the model does not have are false. -/
def Model.toAssignment (m : Model) (var : Nat) : Bool := m.values.getD var false

/-- Exactly one of the two literals of a variable is true. -/
@[simp] theorem Lit.isTrue_negate (assignment : Nat → Bool) (l : Lit) :
    l.negate.isTrue assignment = !l.isTrue assignment := by
  simp only [Lit.isTrue, Lit.negate_var, Lit.negate_negative]
  cases assignment l.var <;> cases l.negative <;> rfl

/-- Nothing satisfies the empty disjunction. -/
@[simp] theorem not_satisfies_nil (assignment : Nat → Bool) : ¬ Satisfies assignment [] := by
  simp [Satisfies]

/-- A disjunction is satisfied through its first literal or through the others. -/
theorem satisfies_cons_iff (assignment : Nat → Bool) (l : Lit) (rest : List Lit) :
    Satisfies assignment (l :: rest) ↔ l.isTrue assignment = true ∨ Satisfies assignment rest := by
  simp [Satisfies]

/-- Two disjunctions with the same literals are satisfied by the same assignments. -/
theorem satisfies_congr {assignment : Nat → Bool} {lits others : List Lit}
    (sameLits : ∀ l, l ∈ lits ↔ l ∈ others) :
    Satisfies assignment lits ↔ Satisfies assignment others := by
  simp only [Satisfies, sameLits]

/-- Removing repetitions does not change what satisfies a clause. -/
theorem Clause.satisfies_ofLits (assignment : Nat → Bool) (lits : List Lit) (kind : ClauseKind) :
    Satisfies assignment (Clause.ofLits lits kind).lits ↔ Satisfies assignment lits :=
  satisfies_congr fun _ => List.mem_eraseDups

/-- A model makes exactly the literals true that its assignment makes true, as long as it has their
variables. -/
theorem Model.litValue_eq {m : Model} {l : Lit} (inRange : l.var < m.varCount) :
    m.litValue l = .ok (l.isTrue m.toAssignment) := by
  have here : l.var < m.values.size := inRange
  simp [Model.litValue, Model.value, fetch_of_lt here, Lit.isTrue, Model.toAssignment, here, bind,
    Except.bind, pure, Except.pure]

/-- So it satisfies exactly the disjunctions that its assignment satisfies. -/
theorem Model.satisfies_eq_ok_true_iff (m : Model) (lits : List Lit)
    (inRange : ∀ l ∈ lits, l.var < m.varCount) :
    m.satisfies lits = .ok true ↔ Satisfies m.toAssignment lits := by
  induction lits with
  | nil => simp [Model.satisfies, Satisfies, pure, Except.pure]
  | cons l rest ih =>
    have value := Model.litValue_eq (inRange l (List.mem_cons_self ..))
    rw [satisfies_cons_iff, ← ih fun other member => inRange other (List.mem_cons_of_mem _ member)]
    cases held : l.isTrue m.toAssignment <;>
      simp [Model.satisfies, value, held, bind, Except.bind, pure, Except.pure]

end ClauseLearning
