import ClauseLearning.Observation.Event

/-! # Recording the events of a search

A `Recorder` keeps every event in order, so that a run can be inspected afterwards. A
`TerseRecorder` keeps them too but asks for no details, so only decisions, returns to a lower level
and the end of the search reach it. `Unit` is the tracer that keeps nothing.
-/

namespace ClauseLearning

/-- The events received so far, in order. -/
structure Recorder where
  events : Array Event := #[]
deriving Repr, Inhabited

namespace Recorder

instance : Tracer Recorder where
  wantsDetail _ := true
  event e recorder := ⟨recorder.events.push e⟩

def learned (recorder : Recorder) : List (List Lit) :=
  recorder.events.toList.filterMap fun
    | .learned clause _ => some clause
    | _ => none

def conflicts (recorder : Recorder) : Nat :=
  recorder.events.toList.countP fun
    | .conflict .. => true
    | _ => false

end Recorder

/-- A recorder that asks for no details. -/
structure TerseRecorder where
  record : Recorder := {}
deriving Repr, Inhabited

instance : Tracer TerseRecorder where
  wantsDetail _ := false
  event e terse := ⟨Tracer.event e terse.record⟩

instance : Tracer Unit where
  wantsDetail _ := false
  event _ _ := ()

end ClauseLearning
