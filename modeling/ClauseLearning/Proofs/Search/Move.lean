import ClauseLearning.Proofs.Search.Reachable

/-! # What a step of the search does

A step decides a literal, propagates, goes back for a learned clause and stores it, or leaves the clauses,
the trail and the bookkeeping of propagation as they are. `Move` says so of every step that is made
without a fault, with all that is known about it, and whatever the number of variables is. A property of
all reachable states is proved from it by looking at these four moves.
-/

namespace ClauseLearning.Solver

variable {σ : Type}

/-- What holds in every state of a search with the configuration, from the given clauses on, whether or
not every variable has literals. -/
structure Consistent (vars : Nat) (config : Config) (start : Database) (phase : Phase) (s : Solver σ) :
    Prop where
  valid : phase.isFinished = false → s.Valid vars start phase
  intact : Intact vars start s.work.db s.work.trail
  fit : s.branching.Fit vars
  mode_eq : s.propagator.mode = config.propagation

/-- What a step does to the clauses, the trail and the bookkeeping of propagation. -/
inductive Move [Tracer σ] (vars : Nat) (start : Database) (s s' : Solver σ) : Phase → Phase → Prop
  /-- Nothing of them is changed by an analysis and at the end of the search. -/
  | still {phase phase' : Phase} : phase' ≠ .propagating → s'.work.db = s.work.db →
      s'.work.trail = s.work.trail → s'.propagator = s.propagator → Move vars start s s' phase phase'
  | decided {l : Lit} :
      Trail.Coherent.Made s.work.trail ⟨l, height s.work.trail.stack + 1, .decision⟩ s'.work.trail →
      s'.work.db = s.work.db → s'.propagator = s.propagator →
      Move vars start s s' .deciding .propagating
  | propagated {conflict : Option Nat} :
      s.propagator.propagate s.work = .ok ⟨conflict, s'.propagator, s'.work⟩ →
      Move vars start s s' .propagating (.afterPropagation conflict)
  | learned {analysis : Analysis} : Learned vars start s analysis s' →
      Move vars start s s' (.backtracking analysis) .propagating

section Step
variable [Tracer σ] {vars : Nat} {config : Config} {start : Database} {phase phase' : Phase}
  {s s' : Solver σ}

/-- A step that decides a literal opens a level with it, and any other finishes the search. -/
private theorem Consistent.step_deciding (consistent : Consistent vars config start .deciding s)
    (stepped : step .deciding s = .ok (phase', s')) :
    Consistent vars config start phase' s' ∧ Move vars start s s' .deciding phase' := by
  obtain ⟨work, p, branching, verifyModel, hasEmptyClause, status⟩ := s
  obtain ⟨valid, intact, fit, modeEq⟩ := consistent
  have quiet := (valid rfl).2
  obtain rfl := intact.varCount_eq
  obtain ⟨⟨choice, branching'⟩, picked, onward⟩ := Checked.bind_eq_ok_iff.mp stepped
  have fit' := fit.of_pick intact.coherent picked
  cases choice with
  | none =>
    cases onward
    exact ⟨⟨(by cases ·), intact, fit', modeEq⟩, .still (by simp) rfl rfl rfl⟩
  | some l =>
    obtain ⟨decided, made, same⟩ := Checked.bind_eq_ok_iff.mp onward
    cases same
    obtain ⟨t', chosen, same⟩ := Checked.bind_eq_ok_iff.mp made
    cases same
    have onTop := intact.coherent.made_of_choose chosen
    have intact' := intact.made rfl onTop
    exact ⟨⟨fun _ => ⟨intact', quiet.choose intact.coherent onTop⟩, intact', fit', modeEq⟩,
      .decided onTop rfl rfl⟩

private theorem Consistent.step_propagating (consistent : Consistent vars config start .propagating s)
    (stepped : step .propagating s = .ok (phase', s')) :
    Consistent vars config start phase' s' ∧ Move vars start s s' .propagating phase' := by
  have result := (step_propagating_yields (consistent.valid rfl) consistent.fit).of_eq stepped
  refine ⟨⟨fun _ => result.valid, result.intact, result.fit,
    result.mode_eq.trans consistent.mode_eq⟩, ?_⟩
  obtain ⟨⟨conflict, p', work'⟩, propagated, same⟩ := Checked.bind_eq_ok_iff.mp stepped
  cases same
  exact .propagated propagated

private theorem Consistent.step_analyzing {conflict : Nat}
    (consistent : Consistent vars config start (.analyzing conflict) s)
    (stepped : step (.analyzing conflict) s = .ok (phase', s')) :
    Consistent vars config start phase' s' ∧ Move vars start s s' (.analyzing conflict) phase' := by
  have level := consistent.intact.coherent.level_eq
  rcases exists_of_step_analyzing stepped with ⟨noted, counted, ⟨-, rfl, rfl⟩ | ⟨above, -⟩⟩
  · obtain rfl := eq_of_noteConflict counted
    exact ⟨⟨(by cases ·), consistent.intact, consistent.fit, consistent.mode_eq⟩,
      .still (by simp) rfl rfl rfl⟩
  · obtain ⟨analysis, rfl, analyzed⟩ :=
      (step_analyzing_yields_analyzed (consistent.valid rfl) (level ▸ above)).of_eq stepped
    obtain ⟨valid, dbEq, trailEq, propagatorEq, branchingEq, -⟩ := analyzed
    exact ⟨⟨fun _ => valid, valid.1, branchingEq ▸ consistent.fit, propagatorEq ▸ consistent.mode_eq⟩,
      .still (by simp) dbEq trailEq propagatorEq⟩

private theorem Consistent.step_backtracking {analysis : Analysis}
    (consistent : Consistent vars config start (.backtracking analysis) s)
    (stepped : step (.backtracking analysis) s = .ok (phase', s')) :
    Consistent vars config start phase' s' ∧
      Move vars start s s' (.backtracking analysis) phase' := by
  obtain ⟨rfl, learned⟩ :=
    (step_backtracking_yields_learned (consistent.valid rfl) consistent.fit).of_eq stepped
  exact ⟨⟨fun _ => learned.valid, learned.valid.1, learned.fit,
    learned.mode_eq.trans consistent.mode_eq⟩, .learned learned⟩

/-- What propagation leads to from a state of the search. -/
theorem Consistent.outcome {result : Propagated σ} (consistent : Consistent vars config start .propagating s)
    (propagated : s.propagator.propagate s.work = .ok result) : s.propagator.Outcome s.work result :=
  (Propagator.propagate_yields consistent.intact.sound (consistent.valid rfl).2).of_eq propagated

/-- Every step that is made is a move and keeps what holds. -/
theorem Consistent.step (consistent : Consistent vars config start phase s)
    (stepped : Solver.step phase s = .ok (phase', s')) :
    Consistent vars config start phase' s' ∧ Move vars start s s' phase phase' := by
  cases phase with
  | deciding => exact consistent.step_deciding stepped
  | propagating => exact consistent.step_propagating stepped
  | analyzing conflict => exact consistent.step_analyzing stepped
  | backtracking analysis => exact consistent.step_backtracking stepped
  | finished outcome =>
    cases stepped
    exact ⟨consistent, .still (by simp) rfl rfl rfl⟩

/-- A search that found nothing to decide may be taken up again with propagation. -/
private theorem Consistent.resumes_step (consistent : Consistent vars config start phase s)
    (resumes : phase = .finished (.ok .sat) → Consistent vars config start .propagating s)
    (stepped : Solver.step phase s = .ok (.finished (.ok .sat), s')) :
    Consistent vars config start .propagating s' := by
  cases phase with
  | deciding =>
    obtain ⟨intact, quiet⟩ := consistent.valid rfl
    have after := (consistent.step stepped).1
    obtain ⟨⟨choice, branching⟩, -, onward⟩ := Checked.bind_eq_ok_iff.mp stepped
    cases choice with
    | none =>
      cases onward
      exact ⟨fun _ => ⟨intact, quiet.ready intact.coherent⟩, intact, after.fit, after.mode_eq⟩
    | some l =>
      obtain ⟨decided, -, same⟩ := Checked.bind_eq_ok_iff.mp onward
      cases same
  | propagating =>
    obtain ⟨⟨conflict, p, work⟩, -, same⟩ := Checked.bind_eq_ok_iff.mp stepped
    cases conflict <;> cases same
  | analyzing conflict =>
    obtain ⟨noted, -, ⟨-, same, -⟩ | ⟨-, outcome, steps, -, -, same⟩⟩ := exists_of_step_analyzing stepped
    · cases same
    · cases outcome <;> cases same
  | backtracking analysis =>
    have same := ((step_backtracking_yields_learned (consistent.valid rfl) consistent.fit).of_eq stepped).1
    cases same
  | finished outcome =>
    cases stepped
    exact resumes rfl

theorem Consistent.resumes (consistent : Consistent vars config start .propagating s)
    (follows : Follows .propagating s (.finished (.ok .sat)) s') :
    Consistent vars config start .propagating s' := by
  suffices general : ∀ {phase : Phase} {t : Solver σ}, Follows .propagating s phase t →
      Consistent vars config start phase t ∧
        (phase = .finished (.ok .sat) → Consistent vars config start .propagating t) from
    (general follows).2 rfl
  intro phase t follows
  induction follows with
  | refl => exact ⟨consistent, nofun⟩
  | tail _ stepped ih =>
    obtain ⟨before, resumes⟩ := ih
    refine ⟨(before.step stepped).1, ?_⟩
    rintro rfl
    exact before.resumes_step resumes stepped

omit [Tracer σ] in
/-- A solver that came of loading a formula may start. -/
theorem Loaded.consistent {f : Formula} (loaded : s.Loaded f config) :
    Consistent f.varCount config s.work.db .propagating s :=
  ⟨fun _ => loaded.valid, loaded.valid.1, loaded.fit, loaded.mode_eq⟩

/-- What holds of a loaded solver and is kept by every move holds in all states that are reachable. -/
theorem Reachable.consistent_and {f : Formula} (Holds : Phase → Solver σ → Prop) (built : f.Built)
    (initially : ∀ s : Solver σ, s.Loaded f config → Holds .propagating s)
    (kept : ∀ {start phase phase'} {s s' : Solver σ},
      Consistent f.varCount config start phase s → Consistent f.varCount config start phase' s' →
      Move f.varCount start s s' phase phase' → Holds phase s → Holds phase' s')
    (reachable : Reachable f config phase s) :
    (∃ start, Consistent f.varCount config start phase s) ∧ Holds phase s := by
  obtain @⟨tracer, first, made, follows⟩ := reachable
  have loaded := Loaded.of_new built made
  suffices holds : Consistent f.varCount config first.work.db phase s ∧ Holds phase s from
    ⟨⟨_, holds.1⟩, holds.2⟩
  induction follows with
  | refl => exact ⟨loaded.consistent, initially first loaded⟩
  | tail _ stepped ih =>
    obtain ⟨consistent, holds⟩ := ih
    obtain ⟨consistent', move⟩ := consistent.step stepped
    exact ⟨consistent', kept consistent consistent' move holds⟩

/-- Every state that is reachable is consistent. -/
theorem Reachable.consistent {f : Formula} (built : f.Built) (reachable : Reachable f config phase s) :
    ∃ start, Consistent f.varCount config start phase s :=
  (reachable.consistent_and (fun _ _ => True) built (fun _ _ => trivial)
    fun _ _ _ _ => trivial).1

end Step

end ClauseLearning.Solver
