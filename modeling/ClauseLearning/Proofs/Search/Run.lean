import ClauseLearning.Proofs.Search.FreePath
import ClauseLearning.Search.Run

/-! # The search ends within its bound

The search makes its steps in rounds. Each round follows a path of free steps, which either finishes
the search or is as long as the round allows. All rounds together allow more steps than there can be,
so the search is finished after them, with a verdict.
-/

namespace ClauseLearning

theorem Phase.eq_finished {phase : Phase} (finished : phase.isFinished = true) :
    ∃ outcome, phase = .finished outcome := by
  cases phase with
  | finished outcome => exact ⟨outcome, rfl⟩
  | _ => cases finished

namespace Solver

variable {σ : Type} [Tracer σ]

/-- More steps than these are never made, over a number of variables. -/
def stepBound (vars : Nat) : Nat := 4 * 3 ^ vars + 3

/-- The rounds of a search allow more steps than can be made. -/
theorem stepBound_lt (vars : Nat) : stepBound vars + 1 < 2 ^ (2 * vars + 6) := by
  have powers : 3 ^ vars ≤ 4 ^ vars := Nat.pow_le_pow_left (by omega) vars
  have positive : 0 < 4 ^ vars := Nat.pow_pos (by omega)
  have split : 2 ^ (2 * vars + 6) = 4 ^ vars * 64 := by
    rw [Nat.pow_add, Nat.pow_mul]
  rw [split, stepBound]
  omega

structure Ran (vars : Nat) (phase : Phase) (s : Solver σ) (steps : Nat) (phase' : Phase)
    (s' : Solver σ) : Prop where
  path : FreePath steps phase s phase' s'
  fit : s'.branching.Fit vars
  offers : s'.branching.Offers vars s'.work.trail.stack

section Run
variable {vars : Nat} {start : Database} {phase : Phase} {s : Solver σ}

/-- A round either finishes the search or makes all the steps that it may. -/
theorem runRound_yields (doublings : Nat) (small : vars ≤ variableLimit)
    (valid : s.Valid vars start phase) (going : phase.isFinished = false)
    (fit : s.branching.Fit vars) (offers : s.branching.Offers vars s.work.trail.stack) :
    Yields (runRound doublings phase s) fun (phase', s') => ∃ steps,
      Ran vars phase s steps phase' s' ∧ (phase'.isFinished = true ∨ steps = 2 ^ doublings) := by
  induction doublings generalizing phase s with
  | zero =>
    apply (step_yields_freeStep small valid going fit offers).imp
    rintro ⟨phase', s'⟩ ⟨step, fit', offers'⟩
    exact ⟨1, ⟨.cons step .nil, fit', offers'⟩, .inr rfl⟩
  | succ doublings ih =>
    rw [runRound, if_neg (by simp [going])]
    apply (ih valid going fit offers).bind
    rintro ⟨middle, t⟩ ⟨steps, ran, ended⟩
    obtain ⟨valid', -⟩ := ran.path.valid small valid
    cases finished : middle.isFinished with
    | true =>
      obtain ⟨outcome, rfl⟩ := Phase.eq_finished finished
      simp only [runRound_finished]
      exact yields_ok_iff.mpr ⟨steps, ran, .inl rfl⟩
    | false =>
      obtain rfl : steps = 2 ^ doublings := by simpa [finished] using ended
      apply (ih valid' finished ran.fit ran.offers).imp
      rintro ⟨phase', s'⟩ ⟨more, ran', ended'⟩
      refine ⟨_, ⟨ran.path.append ran'.path, ran'.fit, ran'.offers⟩, ended'.imp_right ?_⟩
      rintro rfl
      rw [Nat.pow_succ, Nat.mul_two]

/-- The rounds either finish the search or make all the steps that they may. -/
theorem runRounds_yields (rounds doublings : Nat) (small : vars ≤ variableLimit)
    (valid : s.Valid vars start phase) (going : phase.isFinished = false)
    (fit : s.branching.Fit vars) (offers : s.branching.Offers vars s.work.trail.stack) :
    Yields (runRounds rounds doublings phase s) fun (phase', s') => ∃ steps,
      Ran vars phase s steps phase' s' ∧
        (phase'.isFinished = true ∨ steps + 2 ^ doublings = 2 ^ (doublings + rounds)) := by
  induction rounds generalizing doublings phase s with
  | zero => exact yields_pure_iff.mpr ⟨0, ⟨.nil, fit, offers⟩, .inr (Nat.zero_add _)⟩
  | succ rounds ih =>
    rw [runRounds, if_neg (by simp [going])]
    apply (runRound_yields doublings small valid going fit offers).bind
    rintro ⟨middle, t⟩ ⟨steps, ran, ended⟩
    obtain ⟨valid', -⟩ := ran.path.valid small valid
    cases finished : middle.isFinished with
    | true =>
      obtain ⟨outcome, rfl⟩ := Phase.eq_finished finished
      simp only [runRounds_finished]
      exact yields_ok_iff.mpr ⟨steps, ran, .inl rfl⟩
    | false =>
      obtain rfl : steps = 2 ^ doublings := by simpa [finished] using ended
      apply (ih (doublings + 1) valid' finished ran.fit ran.offers).imp
      rintro ⟨phase', s'⟩ ⟨more, ran', ended'⟩
      refine ⟨_, ⟨ran.path.append ran'.path, ran'.fit, ran'.offers⟩, ended'.imp_right ?_⟩
      intro total
      rw [Nat.pow_succ, Nat.mul_two] at total
      rw [Nat.add_comm rounds 1, ← Nat.add_assoc, ← total]
      omega

/-- The search ends with a verdict, along a path of free steps. -/
theorem search_yields (small : vars ≤ variableLimit) (valid : s.Valid vars start .propagating)
    (affords : s.Affords vars .propagating (stepBound vars)) (fit : s.branching.Fit vars)
    (offers : s.branching.Offers vars s.work.trail.stack) :
    Yields s.search fun (outcome, s') => ∃ verdict steps, outcome = .ok verdict ∧
      FreePath steps .propagating s (.finished (.ok verdict)) s' ∧
      verdict.Evident vars start s'.work.db s'.work.trail := by
  rw [search, valid.varCount_eq rfl]
  apply (runRounds_yields (2 * vars + 6) 0 small valid rfl fit offers).bind
  rintro ⟨phase', s'⟩ ⟨steps, ran, ended⟩
  obtain ⟨valid', within⟩ := ran.path.valid small valid
  have bound := within _ affords
  have allowed := stepBound_lt vars
  have finished : phase'.isFinished = true := by
    refine ended.resolve_right fun total => ?_
    rw [Nat.pow_zero, Nat.zero_add] at total
    omega
  obtain ⟨outcome, rfl⟩ := Phase.eq_finished finished
  obtain ⟨verdict, rfl, evident⟩ := valid'
  exact yields_pure_iff.mpr ⟨verdict, steps, rfl, ran.path, evident⟩

end Run

end Solver

end ClauseLearning
