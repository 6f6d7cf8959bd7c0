import ClauseLearning.Database
import ClauseLearning.Trail

/-! # The status of a clause under a trail

Under a partial assignment a clause is satisfied, falsified, down to one undetermined literal, or
unresolved. The scan that finds out stops at the first literal that holds, and otherwise keeps what
the literals seen so far amount to.
-/

namespace ClauseLearning

/-- What a partial assignment makes of a clause. -/
inductive ClauseStatus where
  | satisfied
  /-- All literals fail but this one, which is undetermined. -/
  | unit (lit : Lit)
  | conflicting
  /-- No literal holds, and several are undetermined. -/
  | unresolved
deriving DecidableEq, Repr, Inhabited

/-- What a clause without literals that hold amounts to when an undetermined literal joins it. -/
def ClauseStatus.withUndetermined (status : ClauseStatus) (l : Lit) : ClauseStatus :=
  match status with
  | .conflicting => .unit l
  | _ => .unresolved

namespace Trail

/-- Scans literals against the trail, given the status of those before them. -/
def scan (t : Trail) : List Lit → ClauseStatus → Checked ClauseStatus
  | [], seen => return seen
  | l :: rest, seen => do
    match ← t.valueOf l with
    | .holds => return .satisfied
    | .fails => t.scan rest seen
    | .unknown => t.scan rest (seen.withUndetermined l)

/-- The status of a disjunction of literals. The empty disjunction is conflicting. -/
def statusOf (t : Trail) (lits : List Lit) : Checked ClauseStatus := t.scan lits .conflicting

end Trail

def Database.status (db : Database) (id : Nat) (t : Trail) : Checked ClauseStatus := do
  t.statusOf (← db.clause id).lits

theorem Database.lt_size_of_status {db : Database} {id : Nat} {t : Trail} {status : ClauseStatus}
    (found : db.status id t = .ok status) : id < db.size := by
  obtain ⟨c, listed, -⟩ := Checked.bind_eq_ok_iff.mp found
  exact lt_size_of_clause listed

end ClauseLearning
