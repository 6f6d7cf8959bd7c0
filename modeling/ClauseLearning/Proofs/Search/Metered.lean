import ClauseLearning.Proofs.Branching.Cadence
import ClauseLearning.Proofs.Propagation.Changes
import ClauseLearning.Proofs.Search.Move

/-! # Decays and levels are counted

Two counters of a run are bounded by more than the events that they count. The scores decay once for each
full interval of clauses learned, and no level above the number of variables is ever opened, since every
level has a decision of its own.
-/

namespace ClauseLearning

variable {σ : Type} [Tracer σ]

omit [Tracer σ] in
/-- Levels are no more than assignments, and these no more than variables. -/
theorem Trail.Coherent.level_le {t : Trail} (coherent : t.Coherent) : t.level ≤ t.varCount := by
  have bound := coherent.stacked.height_le_length
  rw [Trail.length_stack] at bound
  rw [coherent.level_eq]
  exact Nat.le_trans bound coherent.size_le

/-- Propagation learns nothing, opens no level and makes no score decay. -/
theorem Workspace.LeadsTo.stats_eq {work work' : Workspace σ} (leads : work.LeadsTo work') :
    work'.stats.learned = work.stats.learned ∧ work'.stats.decays = work.stats.decays ∧
      work'.stats.maxLevel = work.stats.maxLevel := by
  induction leads with
  | refl => exact ⟨rfl, rfl, rfl⟩
  | reorder _ _ _ ih => exact ih
  | moveCursor _ _ ih => exact ih
  | imply _ _ _ implied ih =>
    obtain ⟨t', -, rfl⟩ := exists_of_imply implied
    exact ih

namespace Solver

/-- The decays go with the clauses learned, and the highest level opened with the variables. -/
structure Metered (vars : Nat) (config : Config) (s : Solver σ) : Prop where
  paced : s.branching.Paced config.decisions s.work.stats.learned s.work.stats.decays
  maxLevel_le : s.work.stats.maxLevel ≤ vars

variable {vars : Nat} {config : Config} {start : Database} {phase phase' : Phase} {s s' : Solver σ}

/-- Going back for a learned clause counts one clause, and a decay if the scores decay. -/
private theorem Metered.learn {analysis : Analysis} (metered : s.Metered vars config)
    (learned : s.learn analysis = .ok (.ok s')) : s'.Metered vars config := by
  obtain ⟨bumped, returned, raised, went, kept⟩ := exists_of_learn learned
  have first : bumped.branching.Paced config.decisions (s.work.stats.learned + 1)
      bumped.work.stats.decays ∧ bumped.work.stats.learned = s.work.stats.learned ∧
      bumped.work.stats.maxLevel = s.work.stats.maxLevel := by
    obtain ⟨⟨decayed, branching⟩, noted, same⟩ := Checked.bind_eq_ok_iff.mp raised
    have paced := metered.paced.learn noted
    cases decayed <;> cases same <;> exact ⟨paced, rfl, rfl⟩
  obtain ⟨paced, count, levels⟩ := first
  obtain ⟨branching, released, same⟩ := Checked.bind_eq_ok_iff.mp went
  cases same
  obtain ⟨p, -, same⟩ := Checked.bind_eq_ok_iff.mp kept
  cases same
  refine ⟨?_, levels.symm ▸ metered.maxLevel_le⟩
  rw [← count] at paced
  exact paced.of_keepsPace (Branching.keepsPace_of_releaseAll released)

/-- Every step keeps the counters in proportion. -/
theorem Metered.step (metered : s.Metered vars config) (consistent : Consistent vars config start phase s)
    (stepped : Solver.step phase s = .ok (phase', s')) : s'.Metered vars config := by
  cases phase with
  | deciding =>
    obtain ⟨⟨choice, branching⟩, picked, onward⟩ := Checked.bind_eq_ok_iff.mp stepped
    have paced := metered.paced.of_keepsPace (Branching.keepsPace_of_pick picked)
    cases choice with
    | none =>
      cases onward
      exact ⟨paced, metered.maxLevel_le⟩
    | some l =>
      obtain ⟨decided, decision, same⟩ := Checked.bind_eq_ok_iff.mp onward
      cases same
      obtain ⟨t', chosen, same⟩ := Checked.bind_eq_ok_iff.mp decision
      cases same
      have made := consistent.intact.coherent.made_of_choose chosen
      have bound : t'.level ≤ vars := by
        rw [← consistent.intact.varCount_eq, ← made.varCount_eq]
        exact made.coherent.level_le
      exact ⟨paced, Nat.max_le.mpr ⟨metered.maxLevel_le, bound⟩⟩
  | propagating =>
    obtain ⟨⟨conflict, p', work'⟩, propagated, same⟩ := Checked.bind_eq_ok_iff.mp stepped
    cases same
    have safe := (consistent.valid rfl).2.safe consistent.intact.sound
    obtain ⟨learned, decays, maxLevel⟩ := (Propagator.leadsTo_of_propagate safe propagated).stats_eq
    exact ⟨learned.symm ▸ decays.symm ▸ metered.paced, maxLevel.symm ▸ metered.maxLevel_le⟩
  | analyzing conflict =>
    obtain ⟨noted, counted, outcome⟩ := exists_of_step_analyzing stepped
    obtain rfl := eq_of_noteConflict counted
    rcases outcome with ⟨-, -, rfl⟩ | ⟨-, outcome, steps, -, rfl, -⟩
    · exact ⟨metered.paced, metered.maxLevel_le⟩
    · exact ⟨metered.paced, metered.maxLevel_le⟩
  | backtracking analysis =>
    obtain ⟨outcome, went, same⟩ := Checked.bind_eq_ok_iff.mp stepped
    cases outcome with
    | error e =>
      cases same
      exact metered
    | ok learned =>
      cases same
      exact metered.learn went
  | finished outcome =>
    cases stepped
    exact metered

/-- So does a whole search. -/
theorem Metered.follows (metered : s.Metered vars config)
    (consistent : Consistent vars config start phase s) (follows : Follows phase s phase' s') :
    s'.Metered vars config := by
  suffices both : Consistent vars config start phase' s' ∧ s'.Metered vars config from both.2
  induction follows with
  | refl => exact ⟨consistent, metered⟩
  | tail _ stepped ih => exact ⟨(ih.1.step stepped).1, ih.2.step ih.1 stepped⟩

end Solver

end ClauseLearning
