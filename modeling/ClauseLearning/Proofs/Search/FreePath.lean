import ClauseLearning.Proofs.Search.Step

/-! # Searches under any heuristic

In a guided step the heuristic of the search has no say: the scores, preferred signs and candidates are
given from outside, and so is the answer if a decision is due. The steps that the search makes itself
are guided by what its own heuristic picks. Whatever path of guided steps is taken, the invariant holds
along it, it is no longer than the starting phase affords, and it can go on, whatever the guidance,
until the search is finished.
-/

namespace ClauseLearning

/-- What a heuristic may answer when a decision is due: a literal of an unassigned variable, or that
there is no such variable. -/
def Trail.Permits (t : Trail) : Option Lit → Prop
  | none => ∀ var < t.varCount, ∃ a ∈ t.stack, a.var = var
  | some l => l.var < t.varCount ∧ l.OpenOn t.stack

/-- There always is something to answer. -/
theorem Trail.exists_permits (t : Trail) : ∃ choice, t.Permits choice := by
  by_cases assigned : ∀ var < t.varCount, ∃ a ∈ t.stack, a.var = var
  · exact ⟨none, assigned⟩
  · push Not at assigned
    obtain ⟨var, inRange, unassigned⟩ := assigned
    exact ⟨some ⟨var, false⟩, inRange, openOn_iff.mpr unassigned⟩

namespace Solver

variable {σ : Type} [Tracer σ]

/-- A step of the search with the given scores, preferred signs and candidates, and with the given
answer if a decision is due. -/
def guidedStep (b : Branching) (choice : Option Lit) (phase : Phase) (s : Solver σ) :
    Checked (Phase × Solver σ) := do
  let s := { s with branching := b }
  match phase with
  | .deciding =>
    match choice with
    | none => return (.finished (.ok .sat), s)
    | some l => return (.propagating, ← s.makeDecision l)
  | phase => step phase s

/-- A step of an unfinished search under some guidance that may be given there. -/
inductive FreeStep (phase : Phase) (s : Solver σ) (phase' : Phase) (s' : Solver σ) : Prop
  | intro (b : Branching) (choice : Option Lit) : phase.isFinished = false →
      b.Fit s.work.trail.varCount → (phase = .deciding → s.work.trail.Permits choice) →
      guidedStep b choice phase s = .ok (phase', s') → FreeStep phase s phase' s'

/-- A number of guided steps, one after the other. -/
inductive FreePath : Nat → Phase → Solver σ → Phase → Solver σ → Prop
  | nil {phase : Phase} {s : Solver σ} : FreePath 0 phase s phase s
  | cons {steps : Nat} {phase middle phase' : Phase} {s t s' : Solver σ} :
      FreeStep phase s middle t → FreePath steps middle t phase' s' →
      FreePath (steps + 1) phase s phase' s'

section Step
variable {vars : Nat} {start : Database} {phase phase' : Phase} {s s' : Solver σ} {b : Branching}
  {choice : Option Lit}

omit [Tracer σ] in
/-- In every phase but the last the trail is over the variables. -/
theorem Valid.varCount_eq (valid : s.Valid vars start phase) (going : phase.isFinished = false) :
    s.work.trail.varCount = vars := by
  cases phase with
  | finished outcome => cases going
  | _ => exact valid.1.varCount_eq

/-- Once every variable is assigned there is a model. -/
private theorem guidedStep_none_yields (valid : s.Valid vars start .deciding)
    (complete : s.work.trail.Permits none) :
    Yields (guidedStep b none .deciding s) fun (phase', s') => s'.Valid vars start phase' ∧
      ∀ steps, s.Affords vars .deciding steps →
        ∃ fewer, steps = fewer + 1 ∧ s'.Affords vars phase' fewer := by
  obtain ⟨intact, quiet⟩ := valid
  have settled := quiet.settled (height s.work.trail.stack) (Nat.lt_succ_self _)
  rw [intact.coherent.stacked.cut_eq_self (Nat.le_refl _)] at settled
  refine yields_pure_iff.mpr
    ⟨⟨.sat, rfl, intact, settled, intact.varCount_eq ▸ complete⟩, fun steps enough => ?_⟩
  simp only [Affords, Phase.Affords] at enough
  exact ⟨steps - 1, by omega, trivial⟩

/-- Where there is nothing to decide, only the data of the heuristic are given from outside. -/
theorem guidedStep_eq_step (decided : phase ≠ .deciding) :
    guidedStep b choice phase s = step phase { s with branching := b } := by
  cases phase with
  | deciding => exact (decided rfl).elim
  | _ => rfl

/-- Under any guidance a step of an unfinished search is made without a fault, keeps the invariant and
costs one of the steps afforded. -/
theorem guidedStep_yields (valid : s.Valid vars start phase) (small : vars ≤ variableLimit)
    (going : phase.isFinished = false) (fit : b.Fit vars)
    (permitted : phase = .deciding → s.work.trail.Permits choice) :
    Yields (guidedStep b choice phase s) fun (phase', s') => s'.Valid vars start phase' ∧
      ∀ steps, s.Affords vars phase steps →
        ∃ fewer, steps = fewer + 1 ∧ s'.Affords vars phase' fewer := by
  by_cases decided : phase = .deciding
  · subst decided
    have allowed := permitted rfl
    cases choice with
    | none => exact guidedStep_none_yields valid allowed
    | some l =>
      obtain ⟨inRange, isOpen⟩ := allowed
      apply (makeDecision_yields (s := { s with branching := b }) valid
        (valid.varCount_eq rfl ▸ inRange) isOpen).bind
      rintro s' ⟨valid', affords, -⟩
      exact yields_pure_iff.mpr ⟨valid', affords⟩
  · rw [guidedStep_eq_step decided]
    exact (step_other_yields (s := { s with branching := b }) small valid fit decided going).imp
      fun _ stepped => ⟨stepped.valid, stepped.affords⟩

/-- A free step keeps the invariant and costs one of the steps afforded. -/
theorem FreeStep.valid (free : FreeStep phase s phase' s') (small : vars ≤ variableLimit)
    (valid : s.Valid vars start phase) :
    s'.Valid vars start phase' ∧ ∀ steps, s.Affords vars phase steps →
      ∃ fewer, steps = fewer + 1 ∧ s'.Affords vars phase' fewer := by
  obtain ⟨b, choice, going, fit, permitted, stepped⟩ := free
  exact (guidedStep_yields valid small going (valid.varCount_eq going ▸ fit) permitted).of_eq stepped

/-- The search itself makes free steps, guided by its own heuristic. -/
theorem step_yields_freeStep (small : vars ≤ variableLimit) (valid : s.Valid vars start phase)
    (going : phase.isFinished = false) (fit : s.branching.Fit vars)
    (offers : s.branching.Offers vars s.work.trail.stack) :
    Yields (step phase s) fun (phase', s') => FreeStep phase s phase' s' ∧
      s'.branching.Fit vars ∧ s'.branching.Offers vars s'.work.trail.stack := by
  have varsEq := valid.varCount_eq going
  obtain ⟨⟨phase', s'⟩, stepped, result⟩ := step_yields small valid fit offers going
  refine ⟨(phase', s'), stepped, ?_, result.fit, result.offers offers⟩
  by_cases decided : phase = .deciding
  · subst decided varsEq
    obtain ⟨⟨choice, picked⟩, same, pick⟩ := fit.pick_yields valid.1.coherent offers small
    simp only [step, same, ok_bind] at stepped
    refine .intro picked choice rfl pick.fit (fun _ => ?_) ?_
    · cases choice with
      | none => exact pick.complete rfl
      | some l => exact pick.isOpen l rfl
    · cases choice <;> exact stepped
  · refine .intro s.branching none going (varsEq ▸ fit) (fun same => (decided same).elim) ?_
    rw [guidedStep_eq_step decided]
    exact stepped

end Step

namespace FreePath
variable {vars steps more : Nat} {start : Database} {phase middle phase' : Phase}
  {s t s' : Solver σ}

theorem append (first : FreePath steps phase s middle t)
    (second : FreePath more middle t phase' s') :
    FreePath (steps + more) phase s phase' s' := by
  induction first with
  | nil => rwa [Nat.zero_add]
  | cons step _ ih =>
    rw [Nat.add_right_comm]
    exact .cons step (ih second)

/-- The invariant holds along a free path, which is no longer than its start affords. -/
theorem valid (path : FreePath steps phase s phase' s') (small : vars ≤ variableLimit)
    (valid : s.Valid vars start phase) :
    s'.Valid vars start phase' ∧ ∀ bound, s.Affords vars phase bound → steps ≤ bound := by
  induction path with
  | nil => exact ⟨valid, fun _ _ => Nat.zero_le _⟩
  | cons step _ ih =>
    obtain ⟨valid', affords⟩ := step.valid small valid
    obtain ⟨valid'', shorter⟩ := ih valid'
    refine ⟨valid'', fun bound enough => ?_⟩
    obtain ⟨fewer, rfl, enough'⟩ := affords bound enough
    exact Nat.succ_le_succ (shorter fewer enough')

end FreePath

end Solver

end ClauseLearning
