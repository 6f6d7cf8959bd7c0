import ClauseLearning.Proofs.Observation.Retelling
import ClauseLearning.Proofs.Search.Metered
import ClauseLearning.Proofs.Search.Verdict

/-! # A solver between the calls for a verdict

A solver may be asked for a verdict any number of times. Between the calls its record, its counters and
its clauses agree with each other, and unless there is a verdict it is ready to search, even after a model
that failed its check.
-/

namespace ClauseLearning.Solver

variable {f : Formula} {config : Config} {start : Database}

/-- The stage of a replay between the calls for a verdict. -/
def restingStage (f : Formula) : Option Verdict → Replay.Stage
  | none => (Replay.start f).stage
  | some verdict => .over verdict

/-- What holds between the calls for a verdict. -/
structure Resting (f : Formula) (config : Config) (start : Database) (s : Solver Recorder) :
    Prop where
  emptied : s.hasEmptyClause = f.hasEmptyClause
  consistent : s.status = none → Consistent f.varCount config start .propagating s
  replays : ∃ r, (Replay.start f).run? s.log = some r ∧ r.Retells s.work.db s.work.trail ∧
    r.stage = restingStage f s.status
  lists : s.work.db.Lists (s.log.filterMap Event.learned?)
  counts : s.work.stats.Counts s.log
  metered : s.Metered f.varCount config

private theorem silent_of_add {lits : List Lit} {loading loading' : Loading Recorder}
    (added : loading.add lits = .ok loading') : loading'.tracer = loading.tracer ∧
      ∃ clauses clauseLits tautologies,
        loading'.stats = { loading.stats with clauses, clauseLits, tautologies } := by
  rcases contingent_cases lits with rfl | tautology | contingent
  · rw [Loading.add_nil] at added
    cases added
    exact ⟨rfl, _, _, _, rfl⟩
  · rw [Loading.add_of_tautology loading tautology] at added
    cases added
    exact ⟨rfl, _, _, _, rfl⟩
  · rw [Loading.add_of_contingent loading contingent] at added
    obtain ⟨p, -, same⟩ := Checked.bind_eq_ok_iff.mp added
    cases same
    exact ⟨rfl, _, _, _, rfl⟩

/-- Loading records nothing and counts nothing that a search counts. -/
private theorem silent_of_addAll (clauses : List (List Lit)) {loading loading' : Loading Recorder}
    (added : Loading.addAll clauses loading = .ok loading') : loading'.tracer = loading.tracer ∧
      ∃ clauses clauseLits tautologies,
        loading'.stats = { loading.stats with clauses, clauseLits, tautologies } := by
  induction clauses generalizing loading with
  | nil =>
    cases added
    exact ⟨rfl, _, _, _, rfl⟩
  | cons lits rest ih =>
    obtain ⟨middle, first, onward⟩ := Checked.bind_eq_ok_iff.mp added
    obtain ⟨tracer, _, _, _, stats⟩ := silent_of_add first
    obtain ⟨tracer', clauses, clauseLits, tautologies, stats'⟩ := ih onward
    exact ⟨tracer'.trans tracer, clauses, clauseLits, tautologies, by rw [stats', stats]⟩

/-- Nothing is recorded or counted before the first call. -/
theorem untouched_of_new {s : Solver Recorder} (made : new config f ({} : Recorder) = .ok s) :
    s.log = [] ∧ s.work.stats.Counts [] ∧ s.Metered f.varCount config := by
  obtain ⟨p, -, onward⟩ := Checked.bind_eq_ok_iff.mp made
  obtain ⟨loading, added, onward⟩ := Checked.bind_eq_ok_iff.mp onward
  obtain ⟨branching, scored, same⟩ := Checked.bind_eq_ok_iff.mp onward
  cases same
  obtain ⟨tracer, clauses, clauseLits, tautologies, stats⟩ := silent_of_addAll f.clauses.toList added
  have paced := Branching.paced_of_new scored (Nat.lt_of_lt_of_le Nat.one_pos (Nat.le_max_right _ _))
  refine ⟨congrArg (fun tracer => tracer.events.toList) tracer, ?_, ?_, ?_⟩
  · simp only [stats]
    exact ⟨rfl, rfl, rfl, rfl, rfl, rfl, rfl⟩
  · simp only [stats]
    exact paced
  · simp only [stats]
    exact Nat.zero_le _

theorem Resting.of_new (built : f.Built) {s : Solver Recorder}
    (made : new config f ({} : Recorder) = .ok s) : Resting f config s.work.db s := by
  obtain ⟨emptied, unanswered⟩ := emptied_of_new built made
  obtain ⟨log, counts, metered⟩ := untouched_of_new made
  have loaded := Loaded.of_new built made
  refine ⟨emptied, fun _ => loaded.consistent, ⟨Replay.start f, ?_, ⟨?_, ?_⟩, ?_⟩, ?_, log ▸ counts,
    metered⟩
  · rw [log]
    rfl
  · rw [loaded.trail_eq]
    rfl
  · rw [loaded.trail_eq, Trail.stack_empty]
    exact .nil
  · rw [unanswered]
    rfl
  · have none : s.work.db.learned = [] := List.filter_eq_nil_iff.mpr fun c member => by
      simp [loaded.unlearned c member]
    rw [Database.Lists, none, log]
    exact .nil

/-- A verdict that the replay admits is recorded last. -/
theorem Resting.of_conclude {t : Solver Recorder} {verdict : Verdict} {r : Replay}
    (emptied : t.hasEmptyClause = f.hasEmptyClause) (ran : (Replay.start f).run? t.log = some r)
    (retells : r.Retells t.work.db t.work.trail) (admitted : r.Admits (.finished verdict))
    (lists : t.work.db.Lists (t.log.filterMap Event.learned?)) (counts : t.work.stats.Counts t.log)
    (metered : t.Metered f.varCount config) :
    Resting f config start (t.conclude verdict) := by
  have logged := t.logged_conclude verdict
  have log : (t.conclude verdict).log = t.log ++ [.finished verdict] := logged.log_eq
  refine ⟨emptied, nofun, ⟨r.after (.finished verdict), ?_, ⟨retells.level_eq, retells.entries⟩, rfl⟩,
    ?_, logged.counts counts, ⟨metered.paced, metered.maxLevel_le⟩⟩
  · rw [log]
    exact Replay.run?_concat ran admitted
  · have same : (t.conclude verdict).work.db = t.work.db := rfl
    rw [log, List.filterMap_append, same]
    simpa [Event.learned?, List.filterMap_cons] using lists

/-- What the record has come to at the end of a search. -/
theorem Resting.searched {s t : Solver Recorder} {outcome : Except EngineError Verdict}
    (resting : Resting f config start s) (unanswered : s.status = none)
    (nonempty : s.hasEmptyClause = false) (searched : s.search = .ok (outcome, t)) :
    t.hasEmptyClause = f.hasEmptyClause ∧ t.status = none ∧
      (∃ r, (Replay.start f).run? t.log = some r ∧ r.Tracks (.finished outcome) t) ∧
      t.work.db.Lists (t.log.filterMap Event.learned?) ∧ t.work.stats.Counts t.log ∧
      t.Metered f.varCount config := by
  obtain ⟨emptied, consistent, ⟨r, ran, retells, stage⟩, lists, counts, metered⟩ := resting
  have follows := Follows.of_search searched
  obtain ⟨status, kept⟩ := follows.keeps
  obtain ⟨-, events, logged, replays, listed⟩ := (consistent unanswered).records_follows follows
  have log : t.log = s.log ++ events := logged.log_eq
  have searching : r.stage = .searching := by
    rw [stage, unanswered]
    exact if_neg (by rw [← emptied, nonempty]; exact Bool.false_ne_true)
  obtain ⟨r', ran', tracks⟩ := replays r ⟨retells, searching⟩
  refine ⟨kept.trans emptied, status.trans unanswered, ⟨r', ?_, tracks⟩, ?_, logged.counts counts,
    metered.follows (consistent unanswered) follows⟩
  · rw [log]
    exact Replay.run?_append_eq_some_iff.mpr ⟨r, ran, ran'⟩
  · rw [log, List.filterMap_append]
    exact listed _ lists

/-- A call for a verdict keeps what holds, and a verdict that it gives is kept. -/
theorem Resting.solve {s u : Solver Recorder} {outcome : Except EngineError Verdict}
    (resting : Resting f config start s) (answered : s.solve = .ok (outcome, u)) :
    Resting f config start u ∧ ∀ verdict, outcome = .ok verdict → u.status = some verdict := by
  cases status : s.status with
  | some verdict =>
    rw [solve_eq_of_status status] at answered
    cases answered
    exact ⟨resting, fun _ same => by cases same; exact status⟩
  | none =>
    cases answers_of_solve status answered with
    | emptied empty =>
      obtain ⟨emptied, -, ⟨r, ran, retells, stage⟩, lists, counts, metered⟩ := resting
      refine ⟨.of_conclude emptied ran retells ?_ lists counts metered, fun _ same => by cases same; rfl⟩
      rw [Replay.Admits, stage, status]
      exact if_pos (emptied ▸ empty)
    | failed nonempty searched =>
      obtain ⟨-, -, ⟨r, -, tracks⟩, -⟩ := resting.searched status nonempty searched
      exact tracks.stage.elim
    | doubted nonempty searched =>
      obtain ⟨emptied, unanswered, ⟨r, ran, retells, searching⟩, lists, counts, metered⟩ :=
        resting.searched status nonempty searched
      have resumes := (resting.consistent status).resumes (.of_search searched)
      refine ⟨⟨emptied, fun _ => resumes, ⟨r, ran, retells, ?_⟩, lists, counts, metered⟩, nofun⟩
      rw [unanswered]
      refine Eq.trans searching (if_neg ?_).symm
      rw [← resting.emptied, nonempty]
      exact Bool.false_ne_true
    | @concluded verdict t nonempty searched =>
      obtain ⟨emptied, -, ⟨r, ran, retells, stage⟩, lists, counts, metered⟩ :=
        resting.searched status nonempty searched
      refine ⟨.of_conclude emptied ran retells ?_ lists counts metered, fun _ same => by cases same; rfl⟩
      cases verdict <;> exact stage

/-- The record of a solver that was asked for a verdict any number of times. -/
theorem Resting.of_asked (built : f.Built) {s t : Solver Recorder} {times : Nat}
    (made : new config f ({} : Recorder) = .ok s) (asked : s.Asked times t) :
    Resting f config s.work.db t := by
  induction asked with
  | never => exact .of_new built made
  | again _ answered ih => exact (ih.solve answered).1

end ClauseLearning.Solver
