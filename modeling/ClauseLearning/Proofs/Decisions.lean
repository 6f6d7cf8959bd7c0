import ClauseLearning.Proofs.Branching.Order
import ClauseLearning.Proofs.Invariants
import ClauseLearning.Proofs.Trail.Places

/-! # What a search decides

When a decision is due, the queue yields an unassigned variable as long as there is one, and the best of all
of them by their present scores. That none is missed is what `Fit` and `Offers` are kept for, and that none
is overtaken is what `Ordered` is kept for, through all that raises scores, lets them decay and takes
candidates off the queue or enters them again.
-/

namespace ClauseLearning

/-- The one variable is as good a decision as the other: it has the higher score or, if both count the same,
is not the higher variable. -/
def Branching.Favors (b : Branching) (var other : Nat) : Prop :=
  countedScore (b.scores.getD other 0) < countedScore (b.scores.getD var 0) ∨
    (countedScore (b.scores.getD var 0) == countedScore (b.scores.getD other 0)) = true ∧ var ≤ other

/-- A choice among a number of variables is a literal of the best one without a value, with the preferred
sign of that variable. It is none only if every variable has a value. -/
structure Branching.Chooses (b : Branching) (vars : Nat) (t : Trail) (choice : Option Lit) : Prop where
  none_iff : choice = none ↔ ∀ var < vars, t.HasValue var
  inRange : ∀ l, choice = some l → l.var < vars
  unassigned : ∀ l, choice = some l → ¬ t.HasValue l.var
  best : ∀ l, choice = some l → ∀ var < vars, ¬ t.HasValue var → b.Favors l.var var
  sign_eq : ∀ l, choice = some l → b.polarity[l.var]? = some !l.negative

section Choice
variable {b : Branching} {t : Trail}

/-- The candidate that comes first has the higher score or the lower variable. -/
theorem Branching.favors_of_before {var other : Nat}
    (before : (b.candidate var).before (b.candidate other) = true) : b.Favors var other := by
  rcases Candidate.before_iff.mp before with higher | ⟨same, lower⟩
  · exact .inl (scoreRank_lt_iff.mp higher)
  · exact .inr ⟨scoreRank_eq_iff.mp same, Nat.le_of_lt lower⟩

/-- Picking from a queue in order, with nothing missing, makes the best choice there is. -/
theorem Branching.Ordered.pick_yields (ordered : b.Ordered) (coherent : t.Coherent)
    (fit : b.Fit t.varCount) (offers : b.Offers t.varCount t.stack)
    (small : t.varCount ≤ variableLimit) :
    Yields (b.pick t) fun (choice, _) => b.Chooses t.varCount t choice := by
  obtain ⟨⟨choice, b'⟩, picked, result⟩ := fit.pick_yields coherent offers small
  obtain ⟨-, -, -, -, -, -, signs⟩ := exists_of_pick picked
  have unassigned : ∀ l, choice = some l → ¬ t.HasValue l.var := fun l chosen =>
    Trail.not_hasValue_iff.mpr (openOn_iff.mp (result.isOpen l chosen).2)
  refine ⟨_, picked, ⟨⟨fun none var inRange => ?_, fun all => ?_⟩, fun l chosen =>
    (result.isOpen l chosen).1, unassigned, ?_, signs⟩⟩
  · by_contra free
    obtain ⟨a, member, same⟩ := result.complete none var inRange
    exact Trail.not_hasValue_iff.mp free a member same
  · cases choice with
    | none => rfl
    | some l => exact (unassigned l rfl (all l.var (result.isOpen l rfl).1)).elim
  · rintro l rfl var inRange free
    by_cases same : var = l.var
    · rw [same]
      exact .inr ⟨scoreRank_eq_iff.mp rfl, Nat.le_refl _⟩
    · exact favors_of_before (ordered.before_of_pick coherent fit offers picked inRange
        (Trail.not_hasValue_iff.mp free) same)

end Choice

namespace Solver
variable {σ : Type} [Tracer σ] {f : Formula} {config : Config} {phase phase' : Phase} {s s' : Solver σ}

private theorem ordered_of_bumpLearned {learned : List Lit} (bumped : s.bumpLearned learned = .ok s')
    (ordered : s.branching.Ordered) : s'.branching.Ordered := by
  obtain ⟨⟨decayed, branching⟩, noted, onward⟩ := Checked.bind_eq_ok_iff.mp bumped
  have ordered' := ordered.of_learn noted
  simp only at onward
  split at onward
  · cases onward
    exact ordered'
  · cases onward
    exact ordered'

private theorem ordered_of_backtrack {level : Nat} (returned : s.backtrack level = .ok s')
    (ordered : s.branching.Ordered) : s'.branching.Ordered := by
  obtain ⟨branching, released, same⟩ := Checked.bind_eq_ok_iff.mp returned
  cases same
  exact ordered.of_releaseAll released

/-- Going back for a learned clause keeps the queue in order: raising scores does, and so does entering
the variables that lose their values. -/
private theorem ordered_of_learn {analysis : Analysis} (learned : s.learn analysis = .ok (.ok s'))
    (ordered : s.branching.Ordered) : s'.branching.Ordered := by
  obtain ⟨bumped, returned, noted, back, added⟩ := exists_of_learn learned
  have ordered' := ordered_of_backtrack back (ordered_of_bumpLearned noted ordered)
  obtain ⟨p, -, same⟩ := Checked.bind_eq_ok_iff.mp added
  cases same
  exact ordered'

/-- Every step keeps the queue in order. -/
theorem ordered_of_step (stepped : step phase s = .ok (phase', s')) (ordered : s.branching.Ordered) :
    s'.branching.Ordered := by
  obtain ⟨work, p, branching, verifyModel, hasEmptyClause, status⟩ := s
  cases phase with
  | deciding =>
    obtain ⟨⟨choice, branching'⟩, picked, onward⟩ := Checked.bind_eq_ok_iff.mp stepped
    have ordered' := ordered.of_pick picked
    cases choice with
    | none =>
      cases onward
      exact ordered'
    | some l =>
      obtain ⟨decided, made, same⟩ := Checked.bind_eq_ok_iff.mp onward
      cases same
      obtain ⟨t', -, same⟩ := Checked.bind_eq_ok_iff.mp made
      cases same
      exact ordered'
  | propagating =>
    obtain ⟨⟨conflict, p', work'⟩, -, same⟩ := Checked.bind_eq_ok_iff.mp stepped
    cases same
    exact ordered
  | analyzing conflict =>
    obtain ⟨noted, counted, outcome⟩ := exists_of_step_analyzing stepped
    obtain rfl := eq_of_noteConflict counted
    rcases outcome with ⟨-, -, rfl⟩ | ⟨-, outcome, steps, -, rfl, -⟩
    · exact ordered
    · exact ordered
  | backtracking analysis =>
    obtain ⟨outcome, learned, onward⟩ := Checked.bind_eq_ok_iff.mp stepped
    cases outcome with
    | error e =>
      cases onward
      exact ordered
    | ok learner =>
      cases onward
      exact ordered_of_learn learned ordered
  | finished outcome =>
    cases stepped
    exact ordered

/-- The queue is in order in every state that is reachable. -/
theorem Reachable.ordered (reachable : Reachable f config phase s) : s.branching.Ordered := by
  obtain @⟨tracer, first, made, follows⟩ := reachable
  induction follows with
  | refl =>
    obtain ⟨p, -, onward⟩ := Checked.bind_eq_ok_iff.mp made
    obtain ⟨loading, -, onward⟩ := Checked.bind_eq_ok_iff.mp onward
    obtain ⟨branching, fresh, same⟩ := Checked.bind_eq_ok_iff.mp onward
    cases same
    exact Branching.ordered_of_new fresh
  | tail _ stepped ih => exact ordered_of_step stepped ih

/-- When a decision is due, there is one exactly if some variable has no value, and it is on the best of
these: on that of the highest score, and the lowest one on a tie. -/
theorem decides_best (built : f.Built) (small : f.varCount ≤ variableLimit)
    (reachable : Reachable f config .deciding s) :
    s.branching.scores.size = f.varCount ∧
      ∃ choice branching, s.branching.pick s.work.trail = .ok (choice, branching) ∧
        s.branching.Chooses f.varCount s.work.trail choice := by
  obtain ⟨start, -, steady⟩ := reachable.steady built small
  obtain ⟨valid, intact, fit, offers, -, -⟩ := steady
  obtain ⟨⟨choice, branching⟩, picked, chooses⟩ := reachable.ordered.pick_yields intact.coherent
    (intact.varCount_eq ▸ fit) (intact.varCount_eq ▸ offers) (intact.varCount_eq ▸ small)
  exact ⟨fit.scores_size, choice, branching, picked, intact.varCount_eq ▸ chooses⟩

/-- The search for a model of `detour` goes back from its first decision with a clause that assigns two of
the three variables, the most frequent one among them. -/
theorem detour_reachable_returned : ∃ s : Solver Recorder, Reachable detour {} .deciding s ∧
    s.work.trail.entries.toList.map Assignment.var = [0, 2] ∧
    (s.branching.pick s.work.trail).map Prod.fst = .ok (some ⟨1, false⟩) := by
  have run : (new {} detour (Recorder.mk #[]) >>= runRounds 2 1 .propagating).map (fun result =>
      (result.1, result.2.work.trail.entries.toList.map Assignment.var,
        (result.2.branching.pick result.2.work.trail).map Prod.fst)) =
      .ok (.deciding, [0, 2], .ok (some ⟨1, false⟩)) := by
    decide +kernel
  obtain ⟨phase, s, reachable, seen⟩ := Reachable.exists_of_runRounds run
  simp only [Prod.mk.injEq] at seen
  obtain ⟨rfl, seen⟩ := seen
  exact ⟨s, reachable, seen⟩

theorem decides_best_detour : detour.Built ∧ detour.varCount ≤ variableLimit ∧
    ∃ s : Solver Recorder, Reachable detour {} .deciding s ∧
      s.work.trail.entries.toList.map Assignment.var = [0, 2] ∧
      (s.branching.pick s.work.trail).map Prod.fst = .ok (some ⟨1, false⟩) ∧
      s.branching.scores.size = detour.varCount ∧
        ∃ choice branching, s.branching.pick s.work.trail = .ok (choice, branching) ∧
          s.branching.Chooses detour.varCount s.work.trail choice := by
  obtain ⟨s, reachable, assigned, picked⟩ := detour_reachable_returned
  exact ⟨detour_built, by decide, s, reachable, assigned, picked,
    decides_best detour_built (by decide) reachable⟩

end Solver

end ClauseLearning
