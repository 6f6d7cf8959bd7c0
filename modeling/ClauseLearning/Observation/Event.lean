import ClauseLearning.Clause
import ClauseLearning.Config
import ClauseLearning.Decimal.Shortest
import ClauseLearning.Verdict

/-! # What a search tells its tracer

A search reports what it does as events, and remarks on the way as messages. A tracer is any type
with a way to take both in. Three kinds of event are costly to build, since they carry the literals
of a clause; the search builds them only for a tracer that says it wants details.
-/

namespace ClauseLearning

/-- A step of a search. -/
inductive Event where
  | decision (lit : Lit) (level : Nat)
  | propagation (lit : Lit) (level : Nat) (antecedent : List Lit)
  | conflict (clause : List Lit) (level : Nat)
  /-- A clause was learned, which asserts its first literal at the level to return to. -/
  | learned (clause : List Lit) (backtrackLevel : Nat)
  | backtrack (source target : Nat)
  | finished (verdict : Verdict)
deriving DecidableEq, Repr

/-- Whether a search reports the event only to a tracer that wants details. -/
def Event.isDetail : Event → Bool
  | .propagation .. | .conflict .. | .learned .. => true
  | .decision .. | .backtrack .. | .finished _ => false

/-- How much a message or event matters. -/
inductive LogLevel where
  | trace
  | debug
  | info
  | warn
deriving DecidableEq, Repr, Inhabited

namespace LogLevel

def rank : LogLevel → Nat
  | trace => 0
  | debug => 1
  | info => 2
  | warn => 3

def text : LogLevel → String
  | trace => "TRACE"
  | debug => "DEBUG"
  | info => "INFO"
  | warn => "WARN"

end LogLevel

/-- A remark of the library that is no step of the search. -/
inductive Message where
  | droppedTautology (clause : Clause)
  | loaded (clauses vars : Nat) (mode : PropagationMode)
  | resolving (pivot : Lit) (antecedent : Clause)
  | decayed (factor : Float)
  | concluded (verdict : Verdict) (decisions conflicts learned : Nat)
deriving Repr

namespace Message

def level : Message → LogLevel
  | droppedTautology _ => .debug
  | loaded .. => .debug
  | resolving .. => .trace
  | decayed _ => .trace
  | concluded .. => .info

def text : Message → String
  | droppedTautology clause => s!"Dropping tautology {clause.text}"
  | loaded clauses vars mode =>
    s!"Loaded {clauses} clauses over {vars} variables ({mode.text} propagation)"
  | resolving pivot antecedent => s!"Resolving on {pivot.text} with {antecedent.text}"
  | decayed factor => s!"Decayed variable scores by {Decimal.text factor}"
  | concluded verdict decisions conflicts learned =>
    s!"{verdict.text} after {decisions} decisions, {conflicts} conflicts, {learned} learnt clauses"

end Message

/-- A type whose values take in the events and messages of a search. -/
class Tracer (σ : Type) where
  /-- Whether events that carry the literals of a clause are wanted. -/
  wantsDetail : σ → Bool
  /-- The tracer after it was asked whether it wants details. It may answer differently the next time. -/
  asked : σ → σ := fun tracer => tracer
  event : Event → σ → σ
  message : Message → σ → σ := fun _ tracer => tracer

/-- The tracer after an event that is built only if details are wanted. -/
def Tracer.detail {σ : Type} [Tracer σ] (event : Event) (tracer : σ) : σ :=
  if Tracer.wantsDetail tracer then Tracer.event event (Tracer.asked tracer) else Tracer.asked tracer

end ClauseLearning
