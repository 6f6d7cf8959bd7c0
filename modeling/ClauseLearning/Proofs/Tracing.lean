import ClauseLearning.Proofs.Correctness
import ClauseLearning.Proofs.Observation.Logged

/-! # Tracing never influences the search

Two runs over one formula and configuration end with the same answer, model, trail, counters and clauses,
whatever their tracers are and whatever these answer each time they are asked whether they want details. What
a tracer is told is overheard by a recorder placed in front of it, which changes nothing else, either. To a
tracer that never wants details the search tells exactly what it tells a recorder, without the details.
-/

namespace ClauseLearning

/-- A tracer, with a record of all events that it has received. -/
structure Overheard (σ : Type) where
  /-- The tracer, which is told everything. -/
  tracer : σ
  /-- The events it has been told. -/
  heard : Recorder := {}

instance {σ : Type} [Tracer σ] : Tracer (Overheard σ) where
  wantsDetail overheard := Tracer.wantsDetail overheard.tracer
  asked overheard := { overheard with tracer := Tracer.asked overheard.tracer }
  event e overheard := ⟨Tracer.event e overheard.tracer, Tracer.event e overheard.heard⟩
  message m overheard := { overheard with tracer := Tracer.message m overheard.tracer }

/-- A tracer that keeps nothing and wants details every other time it is asked. -/
structure Fickle where
  times : Nat := 0

instance : Tracer Fickle where
  wantsDetail fickle := fickle.times % 2 = 0
  asked fickle := ⟨fickle.times + 1⟩
  event _ fickle := fickle

section Relations
variable {σ : Type} [Tracer σ]

/-- A tracer is told the same whether or not it is overheard. -/
instance : Tracer.Keeps fun (overheard : Overheard σ) (tracer : σ) => overheard.tracer = tracer where
  event e _ same := congrArg (Tracer.event e) same
  detail e _ same := by
    subst same
    simp only [Tracer.detail, Tracer.wantsDetail]
    split <;> rfl
  message m same := congrArg (Tracer.message m) same

/-- A tracer that does not want details is asked, and told nothing. -/
theorem Tracer.detail_of_not_wantsDetail {tracer : σ} (quiet : Tracer.wantsDetail tracer = false) (e : Event) :
    Tracer.detail e tracer = Tracer.asked tracer := by
  rw [Tracer.detail, quiet, if_neg Bool.false_ne_true]

/-- The events that are told to every tracer. -/
def Recorder.plain (recorder : Recorder) : List Event := recorder.events.toList.filter fun e => !e.isDetail

theorem Recorder.plain_event (recorder : Recorder) (e : Event) : (Tracer.event e recorder).plain =
    if e.isDetail then recorder.plain else recorder.plain ++ [e] := by
  have told : (Tracer.event e recorder).events.toList = recorder.events.toList ++ [e] := Array.toList_push
  rw [plain, told, List.filter_append]
  cases detailed : e.isDetail <;> simp [detailed, plain]

/-- A tracer that never wants details hears what a recorder does, without the details. -/
theorem Overheard.keeps_plain (quiet : ∀ tracer : σ, Tracer.wantsDetail tracer = false) :
    Tracer.Keeps fun (overheard : Overheard σ) (recorder : Recorder) =>
      overheard.heard.events.toList = recorder.plain where
  event {overheard recorder} e plain same := by
    have told : (Tracer.event e overheard).heard.events.toList =
        overheard.heard.events.toList ++ [e] := Array.toList_push
    rw [told, same, Recorder.plain_event, plain, if_neg Bool.false_ne_true]
  detail {overheard recorder} e detailed same := by
    have wanted : Tracer.detail e recorder = Tracer.event e recorder := rfl
    have unwanted : Tracer.wantsDetail overheard = false := quiet overheard.tracer
    rw [Tracer.detail_of_not_wantsDetail unwanted, wanted, Recorder.plain_event, detailed, if_pos rfl]
    exact same
  message _ same := same

end Relations

namespace Solver
variable {σ τ : Type} [Tracer σ] [Tracer τ]

def run (config : Config) (f : Formula) (tracer : σ) :
    Checked (Except EngineError Verdict × Solver σ) := do
  (← new config f tracer).solve

/-- What a run ends with, but for its tracer. The literals of each clause are in their present order. -/
structure Ending where
  answer : Except EngineError Verdict
  model : Option Model
  trail : Trail
  stats : Statistics
  db : Database

/-- What the result of a run shows, but for its tracer. -/
def ending (result : Except EngineError Verdict × Solver σ) : Ending :=
  ⟨result.1, result.2.model, result.2.work.trail, result.2.work.stats, result.2.work.db⟩

section Runs
variable {R : σ → τ → Prop} {tracer : σ} {tracer' : τ}

/-- Runs with related tracers end alike, with related tracers. -/
theorem run_lockstep [Tracer.Keeps R] (config : Config) (f : Formula) (tracers : R tracer tracer') :
    Lockstep (SameResult R) (run config f tracer) (run config f tracer') :=
  (new_tied config f tracers).bind fun _ _ tied => tied.solve

omit [Tracer σ] [Tracer τ] in
theorem SameResult.ending_eq {r : Except EngineError Verdict × Solver σ}
    {r' : Except EngineError Verdict × Solver τ} (same : SameResult R r r') : ending r = ending r' := by
  obtain ⟨answer, tied⟩ := same
  rw [ending, ending, answer, tied.model_eq, tied.work.trail_eq, tied.work.stats_eq, tied.work.db_eq]

end Runs

/-- Tracing never influences the search. All runs over a formula and a configuration have one ending, a
tracer is the same in the end whether or not it was overheard, and one that never wants details has heard what
a recorder has, without the details. -/
theorem tracing_transparent (config : Config) (f : Formula) :
    (∀ {σ τ : Type} [Tracer σ] [Tracer τ] (tracer : σ) (tracer' : τ),
      (run config f tracer).map ending = (run config f tracer').map ending) ∧
    (∀ {σ : Type} [Tracer σ] (tracer : σ),
      (run config f (Overheard.mk tracer {})).map (fun r => r.2.work.tracer.tracer) =
        (run config f tracer).map fun r => r.2.work.tracer) ∧
    ∀ {σ : Type} [Tracer σ] (tracer : σ), (∀ tracer : σ, Tracer.wantsDetail tracer = false) →
      (run config f (Overheard.mk tracer {})).map (fun r => r.2.work.tracer.heard.events.toList) =
        (run config f ({} : Recorder)).map fun r => r.2.log.filter fun e => !e.isDetail := by
  refine ⟨fun tracer tracer' => ?_, fun tracer => ?_, fun tracer quiet => ?_⟩
  · exact (run_lockstep (R := fun _ _ => True) config f trivial).map_eq fun _ _ same => same.ending_eq
  · have start : (Overheard.mk tracer {}).tracer = tracer := rfl
    exact (run_lockstep (R := fun overheard tracer => overheard.tracer = tracer) config f start).map_eq
      fun _ _ same => same.2.work.tracers
  · have := Overheard.keeps_plain quiet
    have start : (Overheard.mk tracer {}).heard.events.toList = ({} : Recorder).plain := rfl
    exact (run_lockstep (R := fun overheard recorder => overheard.heard.events.toList = recorder.plain)
      config f start).map_eq fun _ _ same => same.2.work.tracers

/-- Of a run on `square`, which propagates and learns, a recorder that asks for no details hears three events. A
fickle tracer is told about half of the details, and the run ends the same. -/
theorem tracing_transparent_square :
    (run {} square (Overheard.mk ({} : TerseRecorder) {})).map
        (fun r => r.2.work.tracer.heard.events.toList) =
      (run {} square ({} : Recorder)).map (fun r => r.2.log.filter fun e => !e.isDetail) ∧
    (run {} square (Overheard.mk ({} : TerseRecorder) {})).map
        (fun r => r.2.work.tracer.heard.events.toList) =
      .ok [.decision ⟨0, false⟩ 1, .backtrack 1 0, .finished .unsat] ∧
    (run {} square (Overheard.mk ({} : Fickle) {})).map (fun r => r.2.work.tracer.heard.events.size) = .ok 6 ∧
    (run {} square ({} : Fickle)).map ending = (run {} square ({} : Recorder)).map ending := by
  have transparent := tracing_transparent {} square
  exact ⟨transparent.2.2 ({} : TerseRecorder) fun _ => rfl, by decide +kernel, by decide +kernel,
    transparent.1 ({} : Fickle) ({} : Recorder)⟩

end Solver

end ClauseLearning
