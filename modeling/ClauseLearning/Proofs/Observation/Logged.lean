import ClauseLearning.Observation.Recorder
import ClauseLearning.Proofs.Propagation.Changes
import ClauseLearning.Search.Run
import Mathlib.Algebra.Ring.Nat

/-! # What a recorder is told

A recorder keeps every event, and the counters of a run count the same events. `Logged` says that the log
has grown by some events and that the counters still agree with it. Each operation of the search is
described in this form. Of decays no event tells.
-/

namespace ClauseLearning

namespace Event

def isDecision : Event → Bool
  | .decision .. => true
  | _ => false

def isPropagation : Event → Bool
  | .propagation .. => true
  | _ => false

def isConflict : Event → Bool
  | .conflict .. => true
  | _ => false

def isBacktrack : Event → Bool
  | .backtrack .. => true
  | _ => false

def opened? : Event → Option Nat
  | .decision _ level => some level
  | _ => none

def learned? : Event → Option (List Lit)
  | .learned clause _ => some clause
  | _ => none

end Event

/-- The counters agree with the events. -/
structure Statistics.Counts (stats : Statistics) (log : List Event) : Prop where
  decisions : stats.decisions = log.countP Event.isDecision
  propagations : stats.propagations = log.countP Event.isPropagation
  conflicts : stats.conflicts = log.countP Event.isConflict
  backtracks : stats.backtracks = log.countP Event.isBacktrack
  learned : stats.learned = (log.filterMap Event.learned?).length
  learnedLits : stats.learnedLits = ((log.filterMap Event.learned?).map List.length).sum
  maxLevel : stats.maxLevel = (log.filterMap Event.opened?).foldl max 0

/-- The counters after an event. -/
def Statistics.note (stats : Statistics) : Event → Statistics
  | .decision _ level =>
    { stats with decisions := stats.decisions + 1, maxLevel := max stats.maxLevel level }
  | .propagation .. => { stats with propagations := stats.propagations + 1 }
  | .conflict .. => { stats with conflicts := stats.conflicts + 1 }
  | .learned clause _ =>
    { stats with learned := stats.learned + 1, learnedLits := stats.learnedLits + clause.length }
  | .backtrack .. => { stats with backtracks := stats.backtracks + 1 }
  | .finished _ => stats

/-- Counters that take note of an event agree with it, too. -/
theorem Statistics.Counts.note {stats : Statistics} {log : List Event} (counts : stats.Counts log)
    (e : Event) : (stats.note e).Counts (log ++ [e]) := by
  obtain ⟨decisions, propagations, conflicts, backtracks, learned, learnedLits, maxLevel⟩ := counts
  cases e <;> constructor <;>
    simp [Statistics.note, Event.isDecision, Event.isPropagation, Event.isConflict, Event.isBacktrack,
      Event.learned?, Event.opened?, List.filterMap_cons, *]

/-- No event tells of decays. -/
theorem Statistics.Counts.with_decays {stats : Statistics} {log : List Event} (counts : stats.Counts log)
    (decays : Nat) : { stats with decays }.Counts log :=
  ⟨counts.decisions, counts.propagations, counts.conflicts, counts.backtracks, counts.learned,
    counts.learnedLits, counts.maxLevel⟩

def Workspace.log (work : Workspace Recorder) : List Event := work.tracer.events.toList

def Solver.log (s : Solver Recorder) : List Event := s.work.log

namespace Workspace

/-- The workspace has recorded the events in between, and its counters agree with its log if they did. -/
structure Logged (work : Workspace Recorder) (events : List Event) (work' : Workspace Recorder) :
    Prop where
  log_eq : work'.log = work.log ++ events
  counts : work.stats.Counts work.log → work'.stats.Counts work'.log

variable {work middle work' : Workspace Recorder} {events more : List Event} {e : Event} {l : Lit}
  {id : Nat}

theorem Logged.refl (work : Workspace Recorder) : work.Logged [] work :=
  ⟨(List.append_nil _).symm, id⟩

theorem Logged.trans (first : work.Logged events middle) (second : middle.Logged more work') :
    work.Logged (events ++ more) work' :=
  ⟨by rw [second.log_eq, first.log_eq, List.append_assoc], second.counts ∘ first.counts⟩

/-- An event that is recorded and counted. -/
theorem Logged.of_note (log : work'.log = work.log ++ [e]) (stats : work'.stats = work.stats.note e) :
    work.Logged [e] work' :=
  ⟨log, fun counts => log ▸ stats ▸ counts.note e⟩

theorem logged_of_imply (implied : work.imply l id = .ok work') :
    work.Logged [.propagation l work'.trail.level (work'.db.litsOf id)] work' := by
  obtain ⟨t', -, rfl⟩ := exists_of_imply implied
  exact .of_note Array.toList_push rfl

end Workspace

namespace Solver
variable {s s' : Solver Recorder}

theorem logged_of_makeDecision {l : Lit} (decided : s.makeDecision l = .ok s') :
    s.work.Logged [.decision l s'.work.trail.level] s'.work := by
  obtain ⟨t', -, same⟩ := Checked.bind_eq_ok_iff.mp decided
  cases same
  exact .of_note Array.toList_push rfl

theorem logged_of_noteConflict {conflict : Nat} (noted : s.noteConflict conflict = .ok s') :
    s.work.Logged [.conflict (s.work.db.litsOf conflict) s.work.trail.level] s'.work := by
  obtain rfl := eq_of_noteConflict noted
  exact .of_note Array.toList_push rfl

/-- A recorder takes no note of messages. -/
theorem reportResolutions_eq (s : Solver Recorder) (steps : List Resolution) :
    s.reportResolutions steps = s := by
  have silent : ∀ tracer : Recorder, steps.foldl
      (fun tracer step => Tracer.message (.resolving step.pivot step.antecedent) tracer) tracer =
        tracer := by
    intro tracer
    induction steps with
    | nil => rfl
    | cons step rest ih => exact ih
  rw [reportResolutions, silent]

theorem logged_conclude (s : Solver Recorder) (verdict : Verdict) :
    s.work.Logged [.finished verdict] (s.conclude verdict).work :=
  .of_note Array.toList_push rfl

/-- Raising scores records nothing and counts nothing but a decay. -/
private theorem eq_of_bumpLearned {learned : List Lit} (bumped : s.bumpLearned learned = .ok s') :
    s'.log = s.log ∧ s'.work.trail = s.work.trail ∧
      s'.work.stats = { s.work.stats with decays := s'.work.stats.decays } := by
  obtain ⟨⟨decayed, branching⟩, -, onward⟩ := Checked.bind_eq_ok_iff.mp bumped
  cases decayed <;> cases onward <;> exact ⟨rfl, rfl, rfl⟩

private theorem eq_of_backtrack {level : Nat} (returned : s.backtrack level = .ok s') :
    s'.log = s.log ++ [.backtrack s.work.trail.level level] ∧
      s'.work.stats = s.work.stats.note (.backtrack s.work.trail.level level) := by
  obtain ⟨branching, -, same⟩ := Checked.bind_eq_ok_iff.mp returned
  cases same
  exact ⟨Array.toList_push, rfl⟩

/-- A learned clause is counted when it is stored, whatever the level is. -/
private theorem eq_of_storeLearned {learned : List Lit} (level : Nat)
    (stored : s.storeLearned learned = .ok s') :
    s'.log = s.log ∧ s'.work.stats = s.work.stats.note (.learned learned level) := by
  obtain ⟨p, -, same⟩ := Checked.bind_eq_ok_iff.mp stored
  cases same
  exact ⟨rfl, rfl⟩

/-- A learned clause is recorded before the search goes back for it, and counted after that. -/
theorem logged_of_learn {analysis : Analysis} (learned : s.learn analysis = .ok (.ok s')) :
    s.work.Logged [.learned analysis.learned analysis.backtrackLevel,
      .backtrack s.work.trail.level analysis.backtrackLevel] s'.work := by
  obtain ⟨bumped, returned, raised, went, kept⟩ := exists_of_learn learned
  obtain ⟨log₁, trail₁, stats₁⟩ := eq_of_bumpLearned raised
  obtain ⟨log₂, stats₂⟩ := eq_of_backtrack went
  obtain ⟨log₃, stats₃⟩ := eq_of_storeLearned analysis.backtrackLevel kept
  have told : bumped.log = s.log ++ [.learned analysis.learned analysis.backtrackLevel] :=
    log₁.trans Array.toList_push
  have log : s'.log = s.log ++ [.learned analysis.learned analysis.backtrackLevel,
      .backtrack s.work.trail.level analysis.backtrackLevel] := by
    rw [log₃, log₂, told, trail₁, List.append_assoc]
    rfl
  refine ⟨log, fun counts => ?_⟩
  have noted := (counts.note (.learned analysis.learned analysis.backtrackLevel)).note
    (.backtrack s.work.trail.level analysis.backtrackLevel)
  rw [List.append_assoc] at noted
  change s'.work.stats.Counts s'.log
  rw [log, stats₃, stats₂, stats₁]
  exact noted.with_decays bumped.work.stats.decays

end Solver

end ClauseLearning
