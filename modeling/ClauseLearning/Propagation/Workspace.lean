import ClauseLearning.Observation.Event
import ClauseLearning.Statistics
import ClauseLearning.Status

/-! # What propagation works on

Propagation reads and changes four things at once: the clauses, whose literals it may reorder, the
trail, which it extends, the counters and the tracer. They travel together as a `Workspace`.
-/

namespace ClauseLearning

/-- The clauses, the trail, the counters and the tracer of a search. -/
structure Workspace (σ : Type) where
  db : Database
  trail : Trail
  stats : Statistics
  tracer : σ

variable {σ : Type} [Tracer σ]

/-- The tracer after an event that carries the literals of the clause with a number. The clause is looked
up, and has to exist, only if details are wanted. -/
def Database.report (db : Database) (id : Nat) (event : List Lit → Event) (tracer : σ) : Checked σ :=
  if Tracer.wantsDetail tracer then do
    let clause ← db.clause id
    return Tracer.event (event clause.lits) (Tracer.asked tracer)
  else return Tracer.asked tracer

/-- A report fails only if details are wanted of a clause that does not exist. -/
theorem Database.report_eq_ok_iff {db : Database} {id : Nat} {event : List Lit → Event}
    {tracer tracer' : σ} :
    db.report id event tracer = .ok tracer' ↔ (Tracer.wantsDetail tracer = true → id < db.size) ∧
      Tracer.detail (event (db.litsOf id)) tracer = tracer' := by
  unfold report Tracer.detail
  split
  · rename_i wanted
    have known : (db.get? id).isSome ↔ id < db.size := by simp [get?, size]
    rw [← known, clause, litsOf]
    cases db.get? id <;> simp [wanted, bind, Except.bind, pure, Except.pure]
  · rename_i unwanted
    simp [unwanted, pure, Except.pure]

theorem Database.report_of_lt {db : Database} {id : Nat} (inBounds : id < db.size)
    (event : List Lit → Event) (tracer : σ) :
    db.report id event tracer = .ok (Tracer.detail (event (db.litsOf id)) tracer) :=
  report_eq_ok_iff.mpr ⟨fun _ => inBounds, rfl⟩

namespace Workspace

/-- Puts a literal on the trail as forced by the clause with a number, counts it and reports it. -/
def imply (work : Workspace σ) (l : Lit) (id : Nat) : Checked (Workspace σ) := do
  let ⟨db, trail, stats, tracer⟩ := work
  let trail ← trail.imply l id
  let stats := { stats with propagations := stats.propagations + 1 }
  let tracer ← db.report id (.propagation l trail.level) tracer
  return ⟨db, trail, stats, tracer⟩

/-- What has been implied is on the trail, counted and reported. -/
theorem exists_of_imply {work work' : Workspace σ} {l : Lit} {id : Nat}
    (implied : work.imply l id = .ok work') :
    ∃ trail, work.trail.imply l id = .ok trail ∧ work' =
      { db := work.db
        trail
        stats := { work.stats with propagations := work.stats.propagations + 1 }
        tracer := Tracer.detail (.propagation l trail.level (work.db.litsOf id)) work.tracer } := by
  obtain ⟨trail, onTop, onward⟩ := Checked.bind_eq_ok_iff.mp implied
  obtain ⟨tracer, reported, same⟩ := Checked.bind_eq_ok_iff.mp onward
  cases same
  obtain ⟨-, rfl⟩ := Database.report_eq_ok_iff.mp reported
  exact ⟨trail, onTop, rfl⟩

def reorder (work : Workspace σ) (id : Nat) (lits : List Lit) : Workspace σ :=
  let ⟨db, trail, stats, tracer⟩ := work
  ⟨db.reorder id lits, trail, stats, tracer⟩

def status (work : Workspace σ) (id : Nat) : Checked ClauseStatus := work.db.status id work.trail

end Workspace

end ClauseLearning
