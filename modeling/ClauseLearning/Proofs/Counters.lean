import ClauseLearning.Proofs.Correctness
import ClauseLearning.Proofs.Search.Resting

/-! # The counters of a run

The counters are raised in many places, on the way of a search that goes back and forth. In the end they
account exactly for what happened: for the clauses learned, for the conflicts and returns that go with
them, for the decays of the scores, for the levels opened, and for every assignment made, taken back or
left on the trail.
-/

namespace ClauseLearning

namespace Replay

/-- Whether there was a conflict from which no clause has been learned. -/
def Stage.owedClauses : Stage → Nat
  | .conflicted | .refuted | .over .unsat => 1
  | .searching | .learned _ | .over .sat => 0

/-- Whether there is a learned clause for which the search has not gone back. -/
def Stage.owedReturns : Stage → Nat
  | .learned _ => 1
  | _ => 0

variable {r r' : Replay} {log : List Event}

/-- What every event keeps in balance is in balance over the whole log. -/
private theorem balanced {p q : Event → Bool} {owed : Stage → Nat}
    (step : ∀ (r : Replay) (e : Event), r.Admits e →
      [e].countP p + owed r.stage = [e].countP q + owed (r.after e).stage)
    (ran : r.run? log = some r') : log.countP p + owed r.stage = log.countP q + owed r'.stage := by
  induction log generalizing r with
  | nil =>
    cases ran
    rfl
  | cons e rest ih =>
    obtain ⟨admitted, ran⟩ := run?_cons_eq_some_iff.mp ran
    have first := step r e admitted
    have others := ih ran
    rw [← List.singleton_append, List.countP_append, List.countP_append]
    omega

/-- A conflict owes a clause, and a clause owes a return, until the event that brings it. -/
private theorem owed_after {e : Event} (admitted : r.Admits e) :
    [e].countP Event.isConflict + r.stage.owedClauses =
        [e].countP (·.learned?.isSome) + (r.after e).stage.owedClauses ∧
      [e].countP (·.learned?.isSome) + r.stage.owedReturns =
        [e].countP Event.isBacktrack + (r.after e).stage.owedReturns := by
  have due := admitted.stage_eq
  cases e with
  | conflict clause level =>
    simp only [after, due]
    split <;> exact ⟨rfl, rfl⟩
  | finished verdict => cases verdict <;> (rw [due]; exact ⟨rfl, rfl⟩)
  | decision | propagation => exact ⟨rfl, rfl⟩
  | learned | backtrack =>
    rw [due]
    exact ⟨rfl, rfl⟩

/-- From every conflict one clause is learned, unless it refutes the formula. -/
theorem conflicts_eq (ran : r.run? log = some r') :
    log.countP Event.isConflict + r.stage.owedClauses =
      log.countP (·.learned?.isSome) + r'.stage.owedClauses :=
  balanced (fun _ _ admitted => (owed_after admitted).1) ran

/-- For every learned clause there is one return. -/
theorem learned_eq (ran : r.run? log = some r') :
    log.countP (·.learned?.isSome) + r.stage.owedReturns =
      log.countP Event.isBacktrack + r'.stage.owedReturns :=
  balanced (fun _ _ admitted => (owed_after admitted).2) ran

/-- An event makes one assignment, takes some back, or leaves them all. -/
private theorem entries_eq_after (r : Replay) (e : Event) :
    r.entries.length + [e].countP Event.isDecision + [e].countP Event.isPropagation =
      (r.after e).entries.length + r.removed e := by
  cases e with
  | backtrack source target =>
    have split := List.length_eq_countP_add_countP (fun a : Entry => decide (a.level ≤ target))
      (l := r.entries)
    simp only [decide_eq_true_eq, Nat.not_le] at split
    simp only [after, removed, ← List.countP_eq_length_filter]
    exact split
  | _ => rfl

/-- Every assignment made is there still or was taken back. -/
theorem entries_eq (ran : r.run? log = some r') :
    r.entries.length + log.countP Event.isDecision + log.countP Event.isPropagation =
      r'.entries.length + r.takenBack log := by
  induction log generalizing r with
  | nil =>
    cases ran
    rfl
  | cons e rest ih =>
    obtain ⟨-, ran⟩ := run?_cons_eq_some_iff.mp ran
    have first := r.entries_eq_after e
    have others := ih ran
    rw [← List.singleton_append, List.countP_append, List.countP_append, List.singleton_append, takenBack]
    omega

end Replay

namespace Solver
variable {σ : Type} {f : Formula} {config : Config}

/-- The counters of a solver for the formula account for a run of which the log was recorded. -/
structure Accounted (f : Formula) (config : Config) (s : Solver σ) (log : List Event) : Prop where
  decisions : s.work.stats.decisions = log.countP Event.isDecision
  propagations : s.work.stats.propagations = log.countP Event.isPropagation
  /-- A conflict that ends a search adds one. -/
  conflicts : s.work.stats.conflicts = s.work.stats.learned +
    if s.status = some .unsat ∧ f.hasEmptyClause = false then 1 else 0
  backtracks : s.work.stats.backtracks = s.work.stats.learned
  learned : s.work.stats.learned = s.work.db.learnedCount
  learnedLits : s.work.stats.learnedLits = (s.work.db.learned.map Clause.size).sum
  decays : s.work.stats.decays = s.work.stats.learned / max 1 config.branching.decayInterval
  maxLevel : s.work.stats.maxLevel = (log.filterMap Event.opened?).foldl max 0
  maxLevel_le : s.work.stats.maxLevel ≤ f.varCount
  /-- What was assigned is on the trail or was taken back. -/
  assignments : s.work.stats.decisions + s.work.stats.propagations =
    s.work.trail.size + (Replay.start f).takenBack log

/-- Where the search is at rest, a clause was learned from every conflict but the one that refuted the
formula. -/
private theorem Resting.conflicts_eq {start : Database} {s : Solver Recorder}
    (resting : Resting f config start s) : s.log.countP Event.isConflict =
      s.log.countP (·.learned?.isSome) +
        if s.status = some .unsat ∧ f.hasEmptyClause = false then 1 else 0 := by
  obtain ⟨-, -, ⟨r, ran, -, stage⟩, -⟩ := resting
  have tally := Replay.conflicts_eq ran
  cases empty : f.hasEmptyClause with
  | true =>
    rw [if_neg (by simp)]
    rcases Replay.eq_nil_or_finished_of_refuted (if_pos empty) ran with same | same <;> (rw [same]; rfl)
  | false =>
    have searching : (Replay.start f).stage = .searching := if_neg (by simp [empty])
    rw [searching, stage] at tally
    cases status : s.status with
    | none => simpa [restingStage, searching, status] using tally
    | some verdict =>
      cases verdict <;> simpa [restingStage, status, Replay.Stage.owedClauses] using tally

/-- Where the search is at rest, it has gone back for every clause learned. -/
private theorem Resting.backtracks_eq {start : Database} {s : Solver Recorder}
    (resting : Resting f config start s) :
    s.log.countP Event.isBacktrack = s.log.countP (·.learned?.isSome) := by
  obtain ⟨-, -, ⟨r, ran, -, stage⟩, -⟩ := resting
  have tally := Replay.learned_eq ran
  have begun : (Replay.start f).stage.owedReturns = 0 := by
    simp only [Replay.start]
    split <;> rfl
  have settled : r.stage.owedReturns = 0 := by
    rw [stage]
    cases s.status with
    | none => exact begun
    | some verdict => rfl
  omega

private theorem Resting.accounted {start : Database} {s : Solver Recorder}
    (resting : Resting f config start s) : s.Accounted f config s.log := by
  have conflicts := resting.conflicts_eq
  have backtracks := resting.backtracks_eq
  obtain ⟨-, -, ⟨r, ran, retells, -⟩, lists, counts, metered⟩ := resting
  rw [← List.length_filterMap_eq_countP] at conflicts backtracks
  refine ⟨counts.decisions, counts.propagations, ?_, ?_, ?_, ?_, ?_, counts.maxLevel,
    metered.maxLevel_le, ?_⟩
  · rw [counts.conflicts, counts.learned, conflicts]
  · rw [counts.backtracks, counts.learned, backtracks]
  · rw [counts.learned]
    exact lists.length_eq
  · have sizes : (s.log.filterMap Event.learned?).map List.length = s.work.db.learned.map Clause.size := by
      have same := List.rel_map (P := Eq) (fun _ _ perm => perm.length_eq) lists
      exact List.forall₂_eq_eq_eq ▸ same
    rw [counts.learnedLits, sizes]
  · rw [metered.paced.decays_eq, Nat.max_comm]
    rfl
  · have size := retells.entries.length_eq
    rw [Trail.length_stack] at size
    rw [counts.decisions, counts.propagations, ← size]
    simpa [Replay.start] using Replay.entries_eq ran

/-- Solvers that differ in nothing but their tracers are accounted for by one log. -/
private theorem Alike.accounted {τ : Type} {s : Solver σ} {s' : Solver τ} {log : List Event}
    (alike : s.Alike s') (accounted : s'.Accounted f config log) : s.Accounted f config log := by
  obtain ⟨⟨dbEq, trailEq, statsEq⟩, -, -, -, -, statusEq⟩ := alike
  obtain ⟨decisions, propagations, conflicts, backtracks, learned, learnedLits, decays, maxLevel, bound,
    assignments⟩ := accounted
  constructor <;> simp only [dbEq, trailEq, statsEq, statusEq] <;> assumption

variable [Tracer σ]

/-- The calls for a verdict can be made of a solver that differs in nothing but its tracer. -/
private theorem Asked.alike {τ : Type} [Tracer τ] {s t : Solver σ} {s' : Solver τ} {times : Nat}
    (asked : s.Asked times t) (alike : s.Alike s') : ∃ t', s'.Asked times t' ∧ t.Alike t' := by
  induction asked with
  | never => exact ⟨s', .never, alike⟩
  | again _ answered ih =>
    obtain ⟨t', asked', alike'⟩ := ih
    obtain ⟨⟨outcome, u'⟩, answered', rfl, alike''⟩ := alike'.solve.exists_of_eq answered
    exact ⟨u', asked'.again answered', alike''⟩

/-- However often a solver is asked for a verdict, and whoever watches it, its counters account for the run,
of which a recorder keeps the log. Over a variable count that the codes of literals allow, there is such a
solver, and it can be asked any number of times. -/
theorem counters_exact (built : f.Built) (config : Config) (tracer : σ) :
    (∀ (s t : Solver σ) (times : Nat), new config f tracer = .ok s → s.Asked times t →
      ∃ recording recorded : Solver Recorder, new config f {} = .ok recording ∧
        recording.Asked times recorded ∧ t.Accounted f config recorded.log) ∧
    (f.varCount ≤ variableLimit → ∃ s, new config f tracer = .ok s ∧ ∀ times, ∃ t, s.Asked times t) := by
  refine ⟨fun s t times made asked => ?_, fun small => ?_⟩
  · obtain ⟨recording, made', alike⟩ := (new_alike config f tracer ({} : Recorder)).exists_of_eq made
    obtain ⟨recorded, asked', alike'⟩ := asked.alike alike
    exact ⟨recording, recorded, made', asked',
      alike'.accounted (Resting.of_asked built made' asked').accounted⟩
  · obtain ⟨s, made, -⟩ := new_yields built small config tracer
    refine ⟨s, made, fun times => ?_⟩
    induction times with
    | zero => exact ⟨s, .never⟩
    | succ times ih =>
      obtain ⟨t, asked⟩ := ih
      obtain ⟨verdict, u, answered⟩ := (asked.session (.loaded made)).exists_verdict built small
      exact ⟨u, asked.again answered⟩

/-- Refuting `square` takes a conflict, after which one clause is learned and the scores decay at once, and
another one at level zero. -/
theorem counters_exact_square : square.Built ∧ ∃ s t : Solver Unit,
    new { branching := { decayInterval := 0 } } square () = .ok s ∧ s.Asked 1 t ∧
      t.work.stats =
        { decisions := 1, propagations := 3, conflicts := 2, backtracks := 1, decays := 1, clauses := 4,
          clauseLits := 8, learned := 1, learnedLits := 1, maxLevel := 1 } ∧
      ∃ recording recorded : Solver Recorder,
        new { branching := { decayInterval := 0 } } square {} = .ok recording ∧
        recording.Asked 1 recorded ∧
        t.Accounted square { branching := { decayInterval := 0 } } recorded.log := by
  have run : (new { branching := { decayInterval := 0 } } square () >>= solve).map
      (fun answer => answer.2.work.stats) = .ok
        { decisions := 1, propagations := 3, conflicts := 2, backtracks := 1, decays := 1, clauses := 4,
          clauseLits := 8, learned := 1, learnedLits := 1, maxLevel := 1 } := by
    decide +kernel
  obtain ⟨s, ⟨outcome, t⟩, made, answered, stats⟩ := exists_of_bind_map_eq run
  have asked : s.Asked 1 t := .again .never answered
  exact ⟨square_built, s, t, made, asked, stats,
    (counters_exact square_built _ ()).1 s t 1 made asked⟩

end Solver

end ClauseLearning
