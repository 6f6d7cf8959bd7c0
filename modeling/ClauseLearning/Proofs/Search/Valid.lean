import ClauseLearning.Proofs.Branching.Candidates
import ClauseLearning.Proofs.Search.Weight
import ClauseLearning.Search.Step

/-! # What holds in each phase of a search

`Valid` is the invariant of the search: what the clauses, the trail and the propagator satisfy in each
phase, relative to the database that the search started from. It says nothing about scores, preferred
signs and candidates, so it holds however decisions are picked. `Affords` bounds the number of steps
that can still follow, by the weight of the stack.
-/

namespace ClauseLearning

/-- The trail is coherent and over the variables, the clauses are well formed, what is implied is
grounded in them, and they have the same models as those at the start. -/
structure Intact (vars : Nat) (start db : Database) (t : Trail) : Prop where
  coherent : t.Coherent
  varCount_eq : t.varCount = vars
  wellFormed : db.WellFormed vars
  grounded : Grounded db t.stack
  models : ∀ assignment, db.SatisfiedBy assignment ↔ start.SatisfiedBy assignment

/-- No clause is falsified, but not all are settled: propagation is bound to force a literal. -/
structure Database.UrgentOn (db : Database) (stack : List Assignment) : Prop where
  unsettled : ¬ db.SettledOn stack
  unfailing : ∀ id < db.size, ∃ l ∈ db.litsOf id, ¬ l.FailsOn stack

/-- What a verdict says, with the trail as evidence. -/
def Verdict.Evident (vars : Nat) (start db : Database) (t : Trail) : Verdict → Prop
  | .unsat => ∀ assignment, ¬ start.SatisfiedBy assignment
  | .sat => Intact vars start db t ∧ db.SettledOn t.stack ∧
      ∀ var < vars, ∃ a ∈ t.stack, a.var = var

/-- The invariant of a search in each of its phases. -/
def Phase.Valid (vars : Nat) (start db : Database) (t : Trail) (p : Propagator) : Phase → Prop
  | .deciding => Intact vars start db t ∧ p.Quiet db t (height t.stack + 1)
  | .propagating => Intact vars start db t ∧ p.Ready db t
  | .analyzing conflict => Intact vars start db t ∧ conflict < db.size ∧
      (∀ l ∈ db.litsOf conflict, l.FailsOn t.stack) ∧
      (0 < height t.stack → p.Quiet db t (height t.stack))
  | .backtracking analysis => Intact vars start db t ∧ analysis.Justified db t.stack vars ∧
      p.Quiet db t (height t.stack)
  | .finished outcome => ∃ verdict, outcome = .ok verdict ∧ verdict.Evident vars start db t

/-- A number of steps that a search in the phase cannot exceed. Of a stack that propagation is bound to
extend, the literal to be forced counts already. -/
def Phase.Affords (vars : Nat) (db : Database) (t : Trail) (steps : Nat) : Phase → Prop
  | .deciding => 4 * (3 ^ vars - weight vars t.stack) + 1 ≤ steps
  | .propagating => 4 * (3 ^ vars - weight vars t.stack) + 3 ≤ steps ∨
      db.UrgentOn t.stack ∧ 4 * (3 ^ vars - weightForced vars t.stack) + 3 ≤ steps
  | .analyzing _ => 4 * (3 ^ vars - weight vars t.stack) + 2 ≤ steps
  | .backtracking _ => 4 * (3 ^ vars - weight vars t.stack) + 1 ≤ steps
  | .finished _ => True

namespace Intact
variable {vars : Nat} {start db db' : Database} {t t' : Trail}

theorem weight_lt (intact : Intact vars start db t) : weight vars t.stack < 3 ^ vars := by
  refine ClauseLearning.weight_lt ?_
  rw [Trail.length_stack, ← intact.varCount_eq]
  exact intact.coherent.size_le

theorem sound {σ : Type} {stats : Statistics} {tracer : σ} (intact : Intact vars start db t) :
    Workspace.Sound ⟨db, t, stats, tracer⟩ :=
  ⟨intact.coherent, intact.varCount_eq.symm ▸ intact.wellFormed, intact.grounded⟩

/-- Propagation leaves everything intact. -/
theorem advanced {σ : Type} {work work' : Workspace σ}
    (intact : Intact vars start work.db work.trail) (sound : work'.Sound)
    (advanced : work.Advanced work') : Intact vars start work'.db work'.trail where
  coherent := sound.coherent
  varCount_eq := advanced.varCount_eq.trans intact.varCount_eq
  wellFormed := advanced.reordered.wellFormed intact.wellFormed
  grounded := sound.grounded
  models _ := advanced.reordered.satisfiedBy_iff.trans (intact.models _)

/-- A decision leaves everything intact. -/
theorem made (intact : Intact vars start db t) {a : Assignment} (decision : a.reason = .decision)
    (made : Trail.Coherent.Made t a t') : Intact vars start db t' where
  coherent := made.coherent
  varCount_eq := made.varCount_eq.trans intact.varCount_eq
  wellFormed := intact.wellFormed
  grounded := ((intact.sound : Workspace.Sound ⟨db, t, {}, ()⟩).made decision made).grounded
  models := intact.models

/-- A return to a lower level leaves everything intact. -/
theorem returned (intact : Intact vars start db t) {k : Nat}
    (returned : Trail.Coherent.Returned t k t') : Intact vars start db t' where
  coherent := returned.coherent
  varCount_eq := returned.varCount_eq.trans intact.varCount_eq
  wellFormed := intact.wellFormed
  grounded := ((intact.sound : Workspace.Sound ⟨db, t, {}, ()⟩).returned returned).grounded
  models := intact.models

/-- Adding a consequence of the database leaves everything intact. -/
theorem extended (intact : Intact vars start db t) {lits : List Lit}
    (extended : db.Extended lits db') (nonempty : lits ≠ []) (distinct : lits.Nodup)
    (inRange : ∀ l ∈ lits, l.var < vars)
    (follows : ∀ assignment, db.SatisfiedBy assignment → Satisfies assignment lits) :
    Intact vars start db' t where
  coherent := intact.coherent
  varCount_eq := intact.varCount_eq
  wellFormed := extended.wellFormed intact.wellFormed nonempty distinct inRange
  grounded := intact.grounded.extended extended
  models assignment := by
    rw [extended.satisfiedBy_iff, ← intact.models]
    exact and_iff_left_of_imp (follows assignment)

/-- A clause falsified at level zero refutes the database. -/
theorem not_satisfiedBy (intact : Intact vars start db t) (bottom : height t.stack = 0) {id : Nat}
    (inBounds : id < db.size) (fails : ∀ l ∈ db.litsOf id, l.FailsOn t.stack)
    (assignment : Nat → Bool) : ¬ start.SatisfiedBy assignment := by
  intro satisfied
  rw [← intact.models] at satisfied
  obtain ⟨l, member, holds⟩ := Database.satisfiedBy_iff.mp satisfied id inBounds
  obtain ⟨a, listed, same⟩ := fails l member
  have level := intact.coherent.stacked.level_le_height listed
  have forced := intact.grounded.isTrue_of_level_zero intact.coherent.stacked satisfied listed
    (by omega)
  rw [same, Lit.isTrue_negate, holds] at forced
  cases forced

end Intact

section Levels
variable {vars : Nat} {start db : Database} {t : Trail} {p : Propagator} {phase : Phase} {k : Nat}

/-- In every phase but the last the levels below the current one are closed. -/
theorem Phase.Valid.settledOn_cut (valid : phase.Valid vars start db t p)
    (going : phase.isFinished = false) (below : k < height t.stack) : db.SettledOn (cut k t.stack) := by
  cases phase with
  | deciding => exact valid.2.settled k (Nat.lt_succ_of_lt below)
  | propagating => exact valid.2.settled k below
  | analyzing conflict => exact (valid.2.2.2 (Nat.zero_lt_of_lt below)).settled k below
  | backtracking analysis => exact valid.2.2.settled k below
  | finished outcome => cases going

/-- In every phase but the last the watch lists guard the levels below the current one. -/
theorem Phase.Valid.guardedOn_cut (valid : phase.Valid vars start db t p)
    (going : phase.isFinished = false) (mode : p.mode = .watchedLiterals) (below : k < height t.stack) :
    db.GuardedOn [] (cut k t.stack) (cut k t.stack) := by
  cases phase with
  | deciding => exact (valid.2.idle mode).guards.guarded k (Nat.lt_succ_of_lt below)
  | propagating => exact (valid.2.primed mode).guards.guarded k below
  | analyzing conflict =>
    exact ((valid.2.2.2 (Nat.zero_lt_of_lt below)).idle mode).guards.guarded k below
  | backtracking analysis => exact (valid.2.2.idle mode).guards.guarded k below
  | finished outcome => cases going

end Levels

section Urgent
variable {db db' : Database} {stack : List Assignment} {lits : List Lit}

/-- An asserting clause added to a settled database makes propagation force a literal. -/
theorem Database.SettledOn.urgentOn {first : Lit} {rest : List Lit} (settled : db.SettledOn stack)
    (stacked : Stacked stack) (extended : db.Extended (first :: rest) db')
    (asserting : Asserting stack first rest) : db'.UrgentOn stack := by
  refine ⟨fun all => ?_, ?_⟩
  · have new := all db.size (by rw [extended.size_eq]; omega)
    rw [extended.litsOf_new] at new
    refine new.not_unit stacked asserting.isOpen fun other member differs => ?_
    exact asserting.fails other ((List.mem_cons.mp member).resolve_left differs)
  · refine extended.forall_lt (fun lits => ∃ l ∈ lits, ¬ l.FailsOn stack) ?_ ?_
    · intro id inBounds
      by_contra failing
      refine (settled id inBounds).not_conflicting stacked fun l member => ?_
      by_contra unfailing
      exact failing ⟨l, member, unfailing⟩
    · exact ⟨first, List.mem_cons_self .., asserting.isOpen.2⟩

/-- Where propagation is bound to force a literal, it does. -/
theorem Propagator.Outcome.weightForced_le {σ : Type} {p : Propagator} {work : Workspace σ}
    {result : Propagated σ} (outcome : p.Outcome work result) (vars : Nat)
    (urgent : work.db.UrgentOn work.trail.stack) :
    weightForced vars work.trail.stack ≤ weight vars result.work.trail.stack := by
  obtain ⟨added, grown, forced⟩ := outcome.advanced.grown
  rw [grown]
  refine ClauseLearning.weightForced_le ?_ fun a member => (forced a member).2
  rintro rfl
  rw [List.nil_append] at grown
  cases conflict : result.conflict with
  | none =>
    have settled := (outcome.closed conflict).settled (height work.trail.stack) (Nat.lt_succ_self _)
    have stacked := outcome.sound.coherent.stacked
    rw [stacked.cut_eq_self (Nat.le_of_eq outcome.advanced.height_eq), grown] at settled
    exact urgent.unsettled (outcome.advanced.reordered.symm.settledOn settled)
  | some id =>
    obtain ⟨inBounds, fails⟩ := outcome.falsified id conflict
    have reordered := outcome.advanced.reordered
    obtain ⟨l, member, unfailing⟩ := urgent.unfailing id (reordered.size_eq ▸ inBounds)
    exact unfailing (grown ▸ fails l (reordered.mem_iff.mpr member))

end Urgent

end ClauseLearning
