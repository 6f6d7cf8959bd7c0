import ClauseLearning.Observation.Log
import ClauseLearning.Proofs.Search.Reachable
import ClauseLearning.Proofs.Tracing

/-! # A log threshold only filters

A log decides by its threshold which lines it keeps, and by the same threshold whether it asks for the details
of events. So a log with a higher threshold is told less. It misses nothing that it would have kept: the
lines of details are below the level at which details are asked for. Two runs in lockstep, one with the
threshold and one that keeps every line, therefore write the same lines but for those below the threshold.
-/

namespace ClauseLearning

/-- The levels in force under a threshold, which is none if logging is off. -/
def LogLevel.inForce : Option LogLevel → List LogLevel
  | none => []
  | some .warn => [.warn]
  | some .info => [.warn, .info]
  | some .debug => [.warn, .info, .debug]
  | some .trace => [.warn, .info, .debug, .trace]

/-- The lines whose level is in force under a threshold. -/
def LogLine.within (threshold : Option LogLevel) (lines : List LogLine) : List LogLine :=
  lines.filter (·.level ∈ LogLevel.inForce threshold)

namespace Log
variable {threshold : Option LogLevel} {log full : Log} {line : LogLine}

/-- A log keeps the lines of the levels in force. -/
theorem admits_iff (log : Log) (level : LogLevel) :
    log.admits level = true ↔ level ∈ LogLevel.inForce log.threshold := by
  obtain ⟨threshold, lines⟩ := log
  rcases threshold with _ | (_ | _ | _ | _) <;> cases level <;>
    simp [admits, LogLevel.rank, LogLevel.inForce]

/-- The log has the lines of a full log that its threshold lets through. -/
structure Filters (threshold : Option LogLevel) (log full : Log) : Prop where
  threshold_eq : log.threshold = threshold
  unfiltered : full.threshold = some .trace
  lines_eq : log.lines.toList = LogLine.within threshold full.lines.toList

theorem admits_of_unfiltered (unfiltered : full.threshold = some .trace) (level : LogLevel) :
    full.admits level = true := by
  rw [admits_iff, unfiltered]
  cases level <;> decide

/-- A full log keeps every line. -/
theorem write_of_unfiltered (unfiltered : full.threshold = some .trace) (line : LogLine) :
    full.write line = { full with lines := full.lines.push line } :=
  if_pos (admits_of_unfiltered unfiltered line.level)

/-- A line that both logs are given is kept by both or filtered. -/
theorem Filters.write (filters : Filters threshold log full) (line : LogLine) :
    Filters threshold (log.write line) (full.write line) := by
  obtain ⟨rfl, unfiltered, same⟩ := filters
  rw [write_of_unfiltered unfiltered, Log.write]
  split
  · rename_i admitted
    refine ⟨rfl, unfiltered, ?_⟩
    simpa [LogLine.within, (log.admits_iff line.level).mp admitted] using same
  · rename_i refused
    refine ⟨rfl, unfiltered, ?_⟩
    simpa [LogLine.within, (log.admits_iff line.level).not.mp refused] using same

/-- A line that would not have been kept need not be given to the log. -/
theorem Filters.skip (filters : Filters threshold log full) (refused : log.admits line.level = false) :
    Filters threshold log (full.write line) := by
  have unwritten : log.write line = log := if_neg (by simp [refused])
  exact unwritten ▸ filters.write line

/-- The lines of events are of level debug at most. -/
theorem not_admits_logLevel (unwanted : log.admits .debug = false) (e : Event) :
    log.admits e.logLevel = false := by
  obtain ⟨threshold, lines⟩ := log
  cases threshold with
  | none => rfl
  | some least =>
    have low : e.logLevel.rank ≤ LogLevel.debug.rank := by cases e <;> simp [Event.logLevel, LogLevel.rank]
    have above : ¬ least.rank ≤ LogLevel.debug.rank := of_decide_eq_false unwanted
    exact decide_eq_false fun within => above (Nat.le_trans within low)

/-- Whatever the search tells, the log remains the full log filtered. -/
instance : Tracer.Keeps (Filters threshold) where
  event e _ filters := filters.write e.logLine
  message m filters := filters.write m.logLine
  detail {log full} e _ filters := by
    have wanted : Tracer.detail e full = full.write e.logLine :=
      if_pos (admits_of_unfiltered filters.unfiltered .debug)
    rw [wanted]
    cases wants : log.admits .debug with
    | true =>
      have written : Tracer.detail e log = log.write e.logLine := if_pos wants
      exact written ▸ filters.write e.logLine
    | false =>
      have unasked : Tracer.detail e log = log := if_neg (by simp [Tracer.wantsDetail, wants])
      rw [unasked]
      exact filters.skip (not_admits_logLevel wants e)

end Log

namespace Solver

/-- Searches that differ in nothing but their tracers come to the same moments. -/
theorem Tied.follows {σ τ : Type} [Tracer σ] [Tracer τ] {R : σ → τ → Prop} [Tracer.Keeps R] {s t : Solver σ}
    {s' : Solver τ} {phase phase' : Phase} (tied : s.Tied R s') (within : phase.Within s.work.db)
    (follows : Follows phase s phase' t) :
    ∃ t', Follows phase s' phase' t' ∧ t.Tied R t' ∧ phase'.Within t.work.db := by
  induction follows with
  | refl => exact ⟨s', .refl, tied, within⟩
  | tail _ stepped ih =>
    obtain ⟨middle, follows', tied', within'⟩ := ih
    obtain ⟨⟨_, t'⟩, stepped', ⟨rfl, tied''⟩, within''⟩ := (tied'.step within').exists_of_eq stepped
    exact ⟨t', follows'.tail stepped', tied'', within''⟩

def logLines (s : Solver Log) : List LogLine := s.work.tracer.lines.toList

/-- Whatever the threshold is, the lines written in a run are those lines of the run with all lines whose
level is in force, in the same order. So it is at every moment of the search that the run comes to. -/
theorem log_filtered (config : Config) (f : Formula) (threshold : Option LogLevel) :
    (run config f ({ threshold } : Log)).map (fun r => r.2.logLines) =
      (run config f ({ threshold := some .trace } : Log)).map
        (fun r => LogLine.within threshold r.2.logLines) ∧
    ∀ (s t : Solver Log) (phase : Phase), new config f ({ threshold } : Log) = .ok s →
      Follows .propagating s phase t → ∃ s' t' : Solver Log,
        new config f ({ threshold := some .trace } : Log) = .ok s' ∧ Follows .propagating s' phase t' ∧
          t.logLines = LogLine.within threshold t'.logLines := by
  have start : Log.Filters threshold { threshold } { threshold := some .trace } := ⟨rfl, rfl, rfl⟩
  refine ⟨(run_lockstep config f start).map_eq fun _ _ same => same.2.work.tracers.lines_eq,
    fun s t phase made follows => ?_⟩
  obtain ⟨s', made', tied⟩ := (new_tied config f start).exists_of_eq made
  have within : Phase.Within s.work.db .propagating := trivial
  obtain ⟨t', follows', tied', -⟩ := tied.follows within follows
  exact ⟨s', t', made', follows', tied'.work.tracers.lines_eq⟩

/-- A run on `square` with all lines writes traces among the others, and the last line of it is of level
info. It is the only one if that is the threshold. -/
theorem log_filtered_square :
    (run {} square ({ threshold := some .trace } : Log)).map (fun r => r.2.logLines.map LogLine.level) =
      .ok [.debug, .debug, .trace, .debug, .trace, .debug, .debug, .trace, .trace, .debug, .debug, .info] ∧
    (run {} square ({ threshold := some .info } : Log)).map (fun r => r.2.logLines) =
      .ok [⟨.info, "UNSAT after 1 decisions, 2 conflicts, 1 learnt clauses"⟩] ∧
    (run {} square ({ threshold := some .trace } : Log)).map
      (fun r => LogLine.within (some .info) r.2.logLines) =
        .ok [⟨.info, "UNSAT after 1 decisions, 2 conflicts, 1 learnt clauses"⟩] := by
  have filtered := (log_filtered {} square (some .info)).1
  have lines : (run {} square ({ threshold := some .info } : Log)).map (fun r => r.2.logLines) =
      .ok [⟨.info, "UNSAT after 1 decisions, 2 conflicts, 1 learnt clauses"⟩] := by decide +kernel
  exact ⟨by decide +kernel, lines, filtered.symm.trans lines⟩

end Solver

end ClauseLearning
