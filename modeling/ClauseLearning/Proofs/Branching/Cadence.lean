import ClauseLearning.Proofs.Branching.Candidates

/-! # When scores decay

Scores decay once for every so many clauses learned, so the number of decays and the clauses learned since
the last one are quotient and remainder of the number of clauses learned. Nothing else that the heuristic
does touches its configuration or this count.
-/

namespace ClauseLearning.Branching

/-- With a number of clauses learned, the scores have decayed once for each full interval. -/
structure Paced (b : Branching) (config : BranchingConfig) (learned decays : Nat) : Prop where
  config_eq : b.config = config
  total : decays * config.decayInterval + b.sinceDecay = learned
  within : b.sinceDecay < config.decayInterval

structure KeepsPace (b b' : Branching) : Prop where
  config_eq : b'.config = b.config
  sinceDecay_eq : b'.sinceDecay = b.sinceDecay

section Pace
variable {b middle b' : Branching} {config : BranchingConfig} {learned decays var : Nat} {lits : List Lit}

theorem Paced.decays_eq (paced : b.Paced config learned decays) :
    decays = learned / config.decayInterval := by
  have positive : 0 < config.decayInterval := Nat.zero_lt_of_lt paced.within
  rw [← paced.total, Nat.add_comm, Nat.add_mul_div_right _ _ positive, Nat.div_eq_of_lt paced.within,
    Nat.zero_add]

theorem Paced.of_keepsPace (paced : b.Paced config learned decays) (keeps : b.KeepsPace b') :
    b'.Paced config learned decays :=
  ⟨keeps.config_eq.trans paced.config_eq, keeps.sinceDecay_eq.symm ▸ paced.total,
    keeps.sinceDecay_eq.symm ▸ paced.within⟩

theorem KeepsPace.refl (b : Branching) : b.KeepsPace b := ⟨rfl, rfl⟩

theorem KeepsPace.trans (first : b.KeepsPace middle) (second : middle.KeepsPace b') : b.KeepsPace b' :=
  ⟨second.config_eq.trans first.config_eq, second.sinceDecay_eq.trans first.sinceDecay_eq⟩

theorem keepsPace_of_pick {t : Trail} {choice : Option Lit} (picked : b.pick t = .ok (choice, b')) :
    b.KeepsPace b' := by
  obtain ⟨chosen, left, queued, -, rfl, -⟩ := exists_of_pick picked
  exact ⟨rfl, rfl⟩

private theorem keepsPace_of_bump (bumped : b.bump var = .ok b') : b.KeepsPace b' := by
  obtain ⟨score, -, onward⟩ := Checked.bind_eq_ok_iff.mp bumped
  obtain ⟨scores, -, onward⟩ := Checked.bind_eq_ok_iff.mp onward
  obtain ⟨queued, -, onward⟩ := Checked.bind_eq_ok_iff.mp onward
  split at onward <;> cases onward <;> exact ⟨rfl, rfl⟩

private theorem keepsPace_of_bumpAll (bumped : bumpAll lits b = .ok b') : b.KeepsPace b' := by
  induction lits generalizing b with
  | nil =>
    cases bumped
    exact .refl _
  | cons l rest ih =>
    obtain ⟨middle, bumped, onward⟩ := Checked.bind_eq_ok_iff.mp bumped
    exact (keepsPace_of_bump bumped).trans (ih onward)

private theorem keepsPace_of_release {a : Assignment} (released : b.release a = .ok b') :
    b.KeepsPace b' := by
  obtain ⟨middle, saved, onward⟩ := Checked.bind_eq_ok_iff.mp released
  have first : b.KeepsPace middle := by
    rw [savePhase] at saved
    split at saved
    · obtain ⟨polarity, -, same⟩ := Checked.bind_eq_ok_iff.mp saved
      cases same
      exact ⟨rfl, rfl⟩
    · cases saved
      exact .refl b
  obtain ⟨queued, -, onward⟩ := Checked.bind_eq_ok_iff.mp onward
  split at onward
  · cases onward
    exact first
  · obtain ⟨table, -, same⟩ := Checked.bind_eq_ok_iff.mp onward
    cases same
    exact first.trans ⟨rfl, rfl⟩

theorem keepsPace_of_releaseAll {removed : List Assignment} (released : releaseAll removed b = .ok b') :
    b.KeepsPace b' := by
  induction removed generalizing b with
  | nil =>
    cases released
    exact .refl _
  | cons a rest ih =>
    obtain ⟨middle, released, onward⟩ := Checked.bind_eq_ok_iff.mp released
    exact (keepsPace_of_release released).trans (ih onward)

/-- A clause that fills the interval makes the scores decay, and any other one is counted only. -/
theorem Paced.learn {decayed : Bool} (paced : b.Paced config learned decays)
    (noted : b.learn lits = .ok (decayed, b')) :
    b'.Paced config (learned + 1) (if decayed then decays + 1 else decays) := by
  obtain ⟨middle, bumped, onward⟩ := Checked.bind_eq_ok_iff.mp noted
  obtain ⟨rfl, total, within⟩ := paced.of_keepsPace (keepsPace_of_bumpAll bumped)
  simp only at onward
  split at onward
  · rename_i early
    cases onward
    exact ⟨rfl, congrArg (· + 1) total, early⟩
  · rename_i due
    cases onward
    refine ⟨rfl, ?_, Nat.zero_lt_of_lt within⟩
    have full : middle.sinceDecay + 1 = middle.config.decayInterval := by omega
    simp only [if_true, decay, refill]
    rw [← total, Nat.add_mul]
    omega

/-- Nothing has been learned at the start. -/
theorem paced_of_new {vars : Nat} {db : Database} (made : new config vars db = .ok b)
    (positive : 0 < config.decayInterval) : b.Paced config 0 0 := by
  obtain ⟨zero, -, onward⟩ := Checked.bind_eq_ok_iff.mp made
  obtain ⟨⟨positives, negatives⟩, -, same⟩ := Checked.bind_eq_ok_iff.mp onward
  cases same
  exact ⟨rfl, by simp [refill], positive⟩

end Pace

end ClauseLearning.Branching
