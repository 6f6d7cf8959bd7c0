import ClauseLearning.Proofs.Search.Loading

/-! # The states that a search goes through

A state of the search is reachable if steps lead to it from a solver freshly loaded from the formula.
What holds then is proved once, by induction over the steps, and carried over to the moments that a
single step passes through: those in the course of propagation, and the one right after a return.
-/

namespace ClauseLearning

deriving instance DecidableEq for Phase

namespace Solver

variable {σ : Type} [Tracer σ]

inductive Follows (phase : Phase) (s : Solver σ) : Phase → Solver σ → Prop
  | refl : Follows phase s phase s
  | tail {middle phase' : Phase} {t s' : Solver σ} : Follows phase s middle t →
      step middle t = .ok (phase', s') → Follows phase s phase' s'

/-- The search for a model of the formula comes to the state. -/
inductive Reachable (f : Formula) (config : Config) (phase : Phase) (s : Solver σ) : Prop
  | intro {tracer : σ} {loaded : Solver σ} : new config f tracer = .ok loaded →
      Follows .propagating loaded phase s → Reachable f config phase s

/-- The bookkeeping of propagation, the clauses and the trail at a state and at the moments that the
step from there passes through. Storing a clause and attaching it count as one. -/
inductive Passes (s : Solver σ) : Phase → Propagator → Database → Trail → Prop
  | between {phase : Phase} : Passes s phase s.propagator s.work.db s.work.trail
  | propagating {conflict : Option Nat} {p : Propagator} {work : Workspace σ} :
      Propagator.Underway s.propagator s.work conflict p work →
      Passes s .propagating p work.db work.trail
  | returned {analysis : Analysis} :
      Passes s (.backtracking analysis) s.propagator s.work.db
        (s.work.trail.backTo analysis.backtrackLevel)

/-- What holds in every state of a search with the configuration, from the given clauses on. -/
structure Steady (vars : Nat) (config : Config) (start : Database) (phase : Phase) (s : Solver σ) :
    Prop where
  valid : s.Valid vars start phase
  intact : Intact vars start s.work.db s.work.trail
  fit : s.branching.Fit vars
  offers : s.branching.Offers vars s.work.trail.stack
  mode_eq : s.propagator.mode = config.propagation
  watchful : s.propagator.Watchful s.work.db vars

section Run
variable {phase middle phase' : Phase} {s t s' : Solver σ} {outcome : Except EngineError Verdict}

theorem Follows.trans (first : Follows phase s middle t) (second : Follows middle t phase' s') :
    Follows phase s phase' s' := by
  induction second with
  | refl => exact first
  | tail _ stepped ih => exact ih.tail stepped

theorem Follows.of_runRound (doublings : Nat)
    (ran : runRound doublings phase s = .ok (phase', s')) : Follows phase s phase' s' := by
  induction doublings generalizing phase s phase' s' with
  | zero => exact .tail .refl ran
  | succ doublings ih =>
    rw [runRound] at ran
    split at ran
    · cases ran
      exact .refl
    · obtain ⟨⟨middle, t⟩, first, second⟩ := Checked.bind_eq_ok_iff.mp ran
      exact (ih first).trans (ih second)

theorem Follows.of_runRounds (rounds doublings : Nat)
    (ran : runRounds rounds doublings phase s = .ok (phase', s')) : Follows phase s phase' s' := by
  induction rounds generalizing doublings phase s with
  | zero =>
    cases ran
    exact .refl
  | succ rounds ih =>
    rw [runRounds] at ran
    split at ran
    · cases ran
      exact .refl
    · obtain ⟨⟨middle, t⟩, first, second⟩ := Checked.bind_eq_ok_iff.mp ran
      exact (Follows.of_runRound doublings first).trans (ih (doublings + 1) second)

private theorem learn_keeps {analysis : Analysis} (learned : s.learn analysis = .ok (.ok s')) :
    s'.status = s.status ∧ s'.hasEmptyClause = s.hasEmptyClause := by
  obtain ⟨bumped, returned, raised, went, kept⟩ := exists_of_learn learned
  have first : bumped.status = s.status ∧ bumped.hasEmptyClause = s.hasEmptyClause := by
    obtain ⟨⟨decayed, branching⟩, -, same⟩ := Checked.bind_eq_ok_iff.mp raised
    cases decayed <;> cases same <;> exact ⟨rfl, rfl⟩
  obtain ⟨branching, -, same⟩ := Checked.bind_eq_ok_iff.mp went
  cases same
  obtain ⟨p, -, same⟩ := Checked.bind_eq_ok_iff.mp kept
  cases same
  exact first

/-- A step gives no verdict by itself, and an empty clause of the formula is remembered. -/
private theorem step_keeps (stepped : step phase s = .ok (phase', s')) :
    s'.status = s.status ∧ s'.hasEmptyClause = s.hasEmptyClause := by
  cases phase with
  | deciding =>
    obtain ⟨⟨choice, branching⟩, -, onward⟩ := Checked.bind_eq_ok_iff.mp stepped
    cases choice with
    | none =>
      cases onward
      exact ⟨rfl, rfl⟩
    | some l =>
      obtain ⟨decided, decision, same⟩ := Checked.bind_eq_ok_iff.mp onward
      cases same
      obtain ⟨t', -, same⟩ := Checked.bind_eq_ok_iff.mp decision
      cases same
      exact ⟨rfl, rfl⟩
  | propagating =>
    obtain ⟨result, -, same⟩ := Checked.bind_eq_ok_iff.mp stepped
    cases same
    exact ⟨rfl, rfl⟩
  | analyzing conflict =>
    obtain ⟨noted, counted, outcome⟩ := exists_of_step_analyzing stepped
    obtain rfl := eq_of_noteConflict counted
    rcases outcome with ⟨-, -, rfl⟩ | ⟨-, outcome, steps, -, rfl, -⟩
    · exact ⟨rfl, rfl⟩
    · exact ⟨rfl, rfl⟩
  | backtracking analysis =>
    obtain ⟨outcome, went, same⟩ := Checked.bind_eq_ok_iff.mp stepped
    cases outcome with
    | error e =>
      cases same
      exact ⟨rfl, rfl⟩
    | ok learned =>
      cases same
      exact learn_keeps went
  | finished outcome =>
    cases stepped
    exact ⟨rfl, rfl⟩

theorem Follows.keeps (follows : Follows phase s phase' s') :
    s'.status = s.status ∧ s'.hasEmptyClause = s.hasEmptyClause := by
  induction follows with
  | refl => exact ⟨rfl, rfl⟩
  | tail _ stepped ih =>
    obtain ⟨status, emptied⟩ := step_keeps stepped
    exact ⟨status.trans ih.1, emptied.trans ih.2⟩

/-- Steps lead to the state in which a search ends. -/
theorem Follows.of_search (searched : s.search = .ok (outcome, s')) :
    Follows .propagating s (.finished outcome) s' := by
  obtain ⟨⟨phase, t⟩, ran, ended⟩ := Checked.bind_eq_ok_iff.mp searched
  cases phase with
  | finished outcome =>
    cases ended
    exact .of_runRounds _ _ ran
  | _ => cases ended

/-- A state of which something is known when some rounds have been made is reachable. -/
theorem Reachable.exists_of_runRounds {f : Formula} {config : Config} {tracer : σ} {rounds doublings : Nat}
    {γ : Type} {view : Phase × Solver σ → γ} {seen : γ}
    (ran : (new config f tracer >>= runRounds rounds doublings .propagating).map view = .ok seen) :
    ∃ phase s, Reachable f config phase s ∧ view (phase, s) = seen := by
  obtain ⟨loaded, ⟨phase, s⟩, started, ran, same⟩ := exists_of_bind_map_eq ran
  exact ⟨phase, s, .intro started (.of_runRounds rounds doublings ran), same⟩

end Run

section Invariant
variable {vars : Nat} {config : Config} {start : Database} {phase phase' : Phase} {s s' : Solver σ}

/-- A step keeps what holds, and takes back nothing assigned at level zero. -/
theorem Steady.step (steady : Steady vars config start phase s) (small : vars ≤ variableLimit)
    (stepped : Solver.step phase s = .ok (phase', s')) : Steady vars config start phase' s' ∧
      cut 0 s.work.trail.stack <:+ cut 0 s'.work.trail.stack := by
  cases finished : phase.isFinished with
  | true =>
    obtain ⟨outcome, rfl⟩ := Phase.eq_finished finished
    cases stepped
    exact ⟨steady, List.suffix_rfl⟩
  | false =>
    have result := (step_yields small steady.valid steady.fit steady.offers finished).of_eq stepped
    exact ⟨⟨result.valid, result.intact, result.fit, result.offers steady.offers,
      result.mode_eq.trans steady.mode_eq, result.watchful steady.watchful⟩, result.bottom⟩

/-- So does every number of steps. -/
theorem Steady.follows (steady : Steady vars config start phase s) (small : vars ≤ variableLimit)
    (follows : Follows phase s phase' s') : Steady vars config start phase' s' ∧
      cut 0 s.work.trail.stack <:+ cut 0 s'.work.trail.stack := by
  induction follows with
  | refl => exact ⟨steady, List.suffix_rfl⟩
  | tail _ stepped ih =>
    obtain ⟨steady', bottom⟩ := ih
    obtain ⟨steady'', bottom'⟩ := steady'.step small stepped
    exact ⟨steady'', bottom.trans bottom'⟩

/-- What holds in a state holds at the moments that the step from there passes through. -/
theorem Steady.passes {p : Propagator} {db : Database} {t : Trail}
    (steady : Steady vars config start phase s) (passes : s.Passes phase p db t) :
    Intact vars start db t ∧ p.mode = config.propagation ∧ p.Watchful db vars ∧
      cut 0 s.work.trail.stack <:+ cut 0 t.stack := by
  cases passes with
  | between => exact ⟨steady.intact, steady.mode_eq, steady.watchful, List.suffix_rfl⟩
  | propagating underway =>
    obtain ⟨safe, advanced, modeEq⟩ := underway.midway (steady.valid.2.safe steady.intact.sound)
    have intact := steady.intact.advanced safe.sound advanced
    exact ⟨intact, modeEq.trans steady.mode_eq, intact.varCount_eq ▸ safe.watchful,
      cut_suffix_cut advanced.suffix⟩
  | @returned analysis =>
    have returned := steady.intact.coherent.backTo analysis.backtrackLevel
    have bottom : cut 0 (s.work.trail.backTo analysis.backtrackLevel).stack =
        cut 0 s.work.trail.stack := by
      rw [returned.stack_eq, cut_cut (Nat.zero_le _)]
    exact ⟨steady.intact.returned returned, steady.mode_eq, steady.watchful, [], bottom.symm⟩

/-- What holds in every state of a search holds in those reachable from a formula, whose models satisfy
the clauses that the search starts from. -/
theorem Reachable.steady {f : Formula} (reachable : Reachable f config phase s) (built : f.Built)
    (small : f.varCount ≤ variableLimit) :
    ∃ start : Database, (∀ assignment, f.SatisfiedBy assignment → start.SatisfiedBy assignment) ∧
      Steady f.varCount config start phase s := by
  obtain ⟨loaded, follows⟩ := reachable
  have fresh := (new_yields built small config _).of_eq loaded
  refine ⟨_, fun assignment satisfied => (fresh.models assignment).mpr fun lits member _ =>
    satisfied lits member, (Steady.follows ?_ small follows).1⟩
  exact ⟨fresh.valid, fresh.valid.1, fresh.fit, fresh.offers, fresh.mode_eq,
    fresh.valid.1.varCount_eq ▸ fresh.valid.2.watchful⟩

end Invariant

end Solver

end ClauseLearning
