import ClauseLearning.Proofs.Correctness
import ClauseLearning.Proofs.Search.Resting

/-! # The record of a run

A recorder that is given to a solver keeps a faithful account of what the solver does. Replaying it from
an empty trail never gets stuck and comes to the trail of the solver; a conflict is followed by all that
follows from it; the end is told of once and last, however often the solver is asked; and the clauses
that the record says were learned are those of the database, in their order.
-/

namespace ClauseLearning.Solver

variable {f : Formula} {config : Config} {start : Database}

structure Recorded (f : Formula) (s : Solver Recorder) : Prop where
  replays : ∃ r, (Replay.start f).run? s.log = some r ∧ r.Retells s.work.db s.work.trail
  /-- A conflict at level zero is followed by the verdict only, and any other one by a clause learned
  and the return for it. -/
  conflicts : ∀ earlier clause level later, s.log = earlier ++ .conflict clause level :: later →
    level = 0 ∧ later = [.finished .unsat] ∨
      ∃ learned target rest, later = .learned learned target :: .backtrack level target :: rest ∧
        target < level
  /-- The last event is that of the end, and no other one is, if there is a verdict. -/
  finished : ∀ verdict, s.status = some verdict →
    ∃ earlier, s.log = earlier ++ [.finished verdict] ∧ ∀ other, .finished other ∉ earlier
  unfinished : s.status = none → ∀ verdict, .finished verdict ∉ s.log
  learned : List.Forall₂ (fun lits c => lits.Perm c.lits) s.work.tracer.learned s.work.db.learned

/-- What is recorded follows from what a replay of it comes to. -/
private theorem Resting.recorded {s : Solver Recorder} (resting : Resting f config start s) :
    Recorded f s := by
  obtain ⟨-, -, ⟨r, ran, retells, stage⟩, lists, -⟩ := resting
  have going : ∀ verdict, (Replay.start f).stage ≠ .over verdict := by
    intro verdict same
    simp only [Replay.start] at same
    split at same <;> cases same
  refine ⟨⟨r, ran, retells⟩, fun earlier clause level later split => ?_, fun verdict given => ?_,
    fun unanswered verdict => ?_, lists⟩
  · cases empty : f.hasEmptyClause with
    | true =>
      have told : .conflict clause level ∈ s.log := split ▸ List.mem_append_right _ (.head _)
      rcases Replay.eq_nil_or_finished_of_refuted (if_pos empty) ran with same | same <;>
        simp [same] at told
    | false =>
      refine Replay.conflict_followed (split ▸ ran) ?_
      rw [stage]
      cases s.status with
      | none => exact .inl (if_neg (by simp [empty]))
      | some verdict => exact .inr ⟨verdict, rfl⟩
  · rw [given] at stage
    exact Replay.exists_finished ran going stage
  · rw [unanswered] at stage
    exact Replay.finished_not_mem ran fun other same => going other (stage.symm.trans same)

/-- However often a solver is asked for a verdict, the record that it was given empty is a faithful account
of what it did, and a verdict that it answers is kept. Over a variable count that the codes of literals
allow, there is such a solver, and it answers a verdict every time. -/
theorem record_faithful (built : f.Built) (config : Config) :
    (∀ (s t : Solver Recorder) (times : Nat), new config f {} = .ok s → s.Asked times t →
      Recorded f t ∧ ∀ verdict u, t.solve = .ok (.ok verdict, u) → u.status = some verdict) ∧
    (f.varCount ≤ variableLimit → ∃ s : Solver Recorder, new config f {} = .ok s ∧
      ∀ times t, s.Asked times t → ∃ verdict u, t.solve = .ok (.ok verdict, u)) := by
  refine ⟨fun s t times made asked => ?_, fun small => ?_⟩
  · have resting := Resting.of_asked built made asked
    exact ⟨resting.recorded, fun verdict u answered => (resting.solve answered).2 verdict rfl⟩
  · obtain ⟨s, made, -⟩ := new_yields built small config ({} : Recorder)
    exact ⟨s, made, fun times t asked => (asked.session (.loaded made)).exists_verdict built small⟩

theorem record_faithful_square : square.Built ∧ ∃ s t : Solver Recorder,
    new {} square {} = .ok s ∧ s.Asked 1 t ∧ t.status = some .unsat ∧ Recorded square t ∧
      t.log = [.decision ⟨0, false⟩ 1, .propagation ⟨1, false⟩ 1 [⟨1, false⟩, ⟨0, true⟩],
        .conflict [⟨1, true⟩, ⟨0, true⟩] 1, .learned [⟨0, true⟩] 0, .backtrack 1 0,
        .propagation ⟨0, true⟩ 0 [⟨0, true⟩], .propagation ⟨1, false⟩ 0 [⟨1, false⟩, ⟨0, false⟩],
        .conflict [⟨1, true⟩, ⟨0, false⟩] 0, .finished .unsat] := by
  have run : (new {} square ({} : Recorder) >>= solve).map (fun answer =>
      (answer.1, answer.2.log)) = .ok (.ok .unsat, [.decision ⟨0, false⟩ 1,
        .propagation ⟨1, false⟩ 1 [⟨1, false⟩, ⟨0, true⟩], .conflict [⟨1, true⟩, ⟨0, true⟩] 1,
        .learned [⟨0, true⟩] 0, .backtrack 1 0, .propagation ⟨0, true⟩ 0 [⟨0, true⟩],
        .propagation ⟨1, false⟩ 0 [⟨1, false⟩, ⟨0, false⟩], .conflict [⟨1, true⟩, ⟨0, false⟩] 0,
        .finished .unsat]) := by
    decide +kernel
  obtain ⟨s, ⟨outcome, t⟩, made, answered, seen⟩ := exists_of_bind_map_eq run
  obtain ⟨rfl, log⟩ := Prod.mk.inj seen
  obtain ⟨faithful, -⟩ := record_faithful square_built {}
  have asked : s.Asked 1 t := .again .never answered
  exact ⟨square_built, s, t, made, asked, (faithful s s 0 made .never).2 .unsat t answered,
    (faithful s t 1 made asked).1, log⟩

end ClauseLearning.Solver
