import ClauseLearning.Observation.Event

/-! # The log of a search

A log keeps, as lines of text with a level, the events and messages that matter at least as much as
its threshold. It asks for the details of events as soon as its threshold lets through lines of
level debug.
-/

namespace ClauseLearning

structure LogLine where
  level : LogLevel
  text : String
deriving DecidableEq, Repr, Inhabited

namespace LogLine

def render (line : LogLine) : String := s!"{line.level.text} {line.text}"

end LogLine

/-- How much an event matters: propagation is traced, the rest is for debugging. -/
def Event.logLevel : Event → LogLevel
  | .propagation .. => .trace
  | _ => .debug

def Event.text : Event → String
  | .decision lit level => s!"Deciding lit: {lit.text} @ {level}"
  | .propagation lit level antecedent =>
    s!"Propagating {lit.text} @ {level} from {disjunctionText antecedent}"
  | .conflict clause level => s!"Conflict @ {level} on {disjunctionText clause}"
  | .learned clause backtrackLevel =>
    s!"Learned {disjunctionText clause} (backtrack to {backtrackLevel})"
  | .backtrack source target => s!"Backtracking {source} -> {target}"
  | .finished verdict => s!"Finished: {verdict.text}"

def Event.logLine (e : Event) : LogLine := ⟨e.logLevel, e.text⟩

def Message.logLine (m : Message) : LogLine := ⟨m.level, m.text⟩

/-- The lines written so far that passed a threshold. -/
structure Log where
  /-- The least level that is written, or none if nothing is. -/
  threshold : Option LogLevel
  lines : Array LogLine := #[]
deriving Repr, Inhabited

namespace Log

def admits (log : Log) (level : LogLevel) : Bool :=
  match log.threshold with
  | some least => least.rank ≤ level.rank
  | none => false

/-- The log after a line, which is written only if it passes the threshold. -/
def write (log : Log) (line : LogLine) : Log :=
  if log.admits line.level then { log with lines := log.lines.push line } else log

instance : Tracer Log where
  wantsDetail log := log.admits .debug
  event e log := log.write e.logLine
  message m log := log.write m.logLine

end Log

end ClauseLearning
