import ClauseLearning.Proofs.Propagation.Underway
import ClauseLearning.Proofs.Search.Valid

/-! # What a step of the search keeps

One lemma for each phase: the step yields a next phase without a fault, the invariant holds there, and
one step less is enough for the rest of the search. Neither an engine error nor a wrong verdict
satisfies the invariant of a finished search, so this is where both are excluded.
-/

namespace ClauseLearning.Solver

variable {σ : Type}

def Valid (vars : Nat) (start : Database) (phase : Phase) (s : Solver σ) : Prop :=
  phase.Valid vars start s.work.db s.work.trail s.propagator

def Affords (vars : Nat) (phase : Phase) (s : Solver σ) (steps : Nat) : Prop :=
  phase.Affords vars s.work.db s.work.trail steps

structure Stepped (vars : Nat) (start : Database) (phase : Phase) (s : Solver σ) (phase' : Phase)
    (s' : Solver σ) : Prop where
  valid : s'.Valid vars start phase'
  intact : Intact vars start s'.work.db s'.work.trail
  affords : ∀ steps, s.Affords vars phase steps →
    ∃ fewer, steps = fewer + 1 ∧ s'.Affords vars phase' fewer
  fit : s'.branching.Fit vars
  offers : s.branching.Offers vars s.work.trail.stack →
    s'.branching.Offers vars s'.work.trail.stack
  mode_eq : s'.propagator.mode = s.propagator.mode
  watchful : s.propagator.Watchful s.work.db vars → s'.propagator.Watchful s'.work.db vars
  /-- What was assigned at level zero is never taken back. -/
  bottom : cut 0 s.work.trail.stack <:+ cut 0 s'.work.trail.stack

variable [Tracer σ] {vars : Nat} {start : Database} {s : Solver σ}

/-- Any literal of an unassigned variable may be decided. -/
theorem makeDecision_yields {l : Lit} (valid : s.Valid vars start .deciding)
    (inRange : l.var < vars) (isOpen : l.OpenOn s.work.trail.stack) :
    Yields (s.makeDecision l) fun s' => s'.Valid vars start .propagating ∧
      (∀ steps, s.Affords vars .deciding steps →
        ∃ fewer, steps = fewer + 1 ∧ s'.Affords vars .propagating fewer) ∧
      s'.branching = s.branching ∧ s'.propagator = s.propagator ∧ s'.work.db = s.work.db ∧
        ∃ a, a.var = l.var ∧ s'.work.trail.stack = a :: s.work.trail.stack := by
  obtain ⟨⟨db, t, stats, tracer⟩, p, branching, verifyModel, hasEmptyClause, status⟩ := s
  obtain ⟨intact, quiet⟩ := valid
  have inRange' : l.var < t.varCount := intact.varCount_eq.symm ▸ inRange
  apply (intact.coherent.choose_yields inRange' isOpen).bind
  intro t' made
  have valid' := And.intro (intact.made rfl made) (quiet.choose intact.coherent made)
  refine yields_pure_iff.mpr ⟨valid', ?_, rfl, rfl, rfl, _, rfl, made.stack_eq⟩
  intro steps enough
  have heavier : weight vars t.stack < weight vars t'.stack := by
    rw [made.stack_eq]
    exact weight_decision rfl
  have bound : weight vars t.stack < 3 ^ vars := intact.weight_lt
  simp only [Affords, Phase.Affords] at enough ⊢
  exact ⟨steps - 1, by omega, .inl (by omega)⟩

/-- Having nothing to decide, the search has found a model, and otherwise it decides a literal. -/
theorem step_deciding_yields (small : vars ≤ variableLimit) (valid : s.Valid vars start .deciding)
    (fit : s.branching.Fit vars) (offers : s.branching.Offers vars s.work.trail.stack) :
    Yields (step .deciding s) fun (phase', s') => Stepped vars start .deciding s phase' s' := by
  obtain ⟨work, p, branching, verifyModel, hasEmptyClause, status⟩ := s
  obtain ⟨intact, quiet⟩ := valid
  obtain rfl := intact.varCount_eq
  apply (fit.pick_yields intact.coherent offers small).bind
  rintro ⟨choice, branching'⟩ picked
  cases choice with
  | none =>
    have stacked := intact.coherent.stacked
    have settled := quiet.settled (height work.trail.stack) (Nat.lt_succ_self _)
    rw [stacked.cut_eq_self (Nat.le_refl _)] at settled
    have complete := picked.complete rfl
    refine yields_pure_iff.mpr ⟨⟨.sat, rfl, intact, settled, complete⟩, intact, ?_, picked.fit, ?_, rfl, id,
      List.suffix_rfl⟩
    · intro steps enough
      simp only [Affords, Phase.Affords] at enough
      exact ⟨steps - 1, by omega, trivial⟩
    · intro _ var bound unassigned
      obtain ⟨a, member, same⟩ := complete var bound
      exact (unassigned a member same).elim
  | some l =>
    obtain ⟨inRange, isOpen⟩ := picked.isOpen l rfl
    apply (makeDecision_yields (s := ⟨work, p, branching', verifyModel, hasEmptyClause, status⟩)
      ⟨intact, quiet⟩ inRange isOpen).bind
    rintro s' ⟨valid', affords, same, samePropagator, sameDb, a, sameVar, grown⟩
    refine yields_pure_iff.mpr ⟨valid', valid'.1, affords, same ▸ picked.fit, ?_, by rw [samePropagator],
      by rw [samePropagator, sameDb]; exact id, ?_⟩
    · intro _ var bound unassigned
      rw [grown] at unassigned
      rw [same]
      refine picked.offers l rfl var bound
        (fun b member => unassigned b (List.mem_cons_of_mem _ member)) ?_
      rintro rfl
      exact unassigned a (List.mem_cons_self ..) sameVar
    · rw [grown]
      exact cut_suffix_cut (List.suffix_cons a _)

/-- Propagation leads to the next decision or to a conflict. -/
theorem step_propagating_yields (valid : s.Valid vars start .propagating)
    (fit : s.branching.Fit vars) :
    Yields (step .propagating s) fun (phase', s') =>
      Stepped vars start .propagating s phase' s' := by
  obtain ⟨work, p, branching, verifyModel, hasEmptyClause, status⟩ := s
  obtain ⟨intact, ready⟩ := valid
  have sound : work.Sound := intact.sound
  apply (Propagator.propagate_yields_midway sound ready).bind
  rintro ⟨conflict, p', work'⟩ ⟨outcome, midway⟩
  have advanced : work.Advanced work' := outcome.advanced
  have intact' := intact.advanced outcome.sound advanced
  have heights : height work'.trail.stack = height work.trail.stack := advanced.height_eq
  have heavier : weight vars work.trail.stack ≤ weight vars work'.trail.stack :=
    weight_le_of_suffix advanced.suffix
  have offers : branching.Offers vars work.trail.stack → branching.Offers vars work'.trail.stack :=
    fun offers var bound unassigned =>
      offers var bound fun a member => unassigned a (advanced.subset member)
  have cheaper : ∀ steps, Phase.Affords vars work.db work.trail steps .propagating →
      4 * (3 ^ vars - weight vars work'.trail.stack) + 3 ≤ steps := by
    rintro steps (enough | ⟨urgent, enough⟩)
    · omega
    · have forced : weightForced vars work.trail.stack ≤ weight vars work'.trail.stack :=
        outcome.weightForced_le vars urgent
      omega
  have watchful : p'.Watchful work'.db vars := intact'.varCount_eq ▸ midway.safe.watchful
  have bottom : cut 0 work.trail.stack <:+ cut 0 work'.trail.stack := cut_suffix_cut advanced.suffix
  apply yields_pure_iff.mpr
  cases conflict with
  | none =>
    refine ⟨⟨intact', ?_⟩, intact', ?_, fit, offers, outcome.mode_eq, fun _ => watchful, bottom⟩
    · rw [heights]
      exact outcome.closed rfl
    · intro steps enough
      have enough := cheaper steps enough
      refine ⟨steps - 1, by omega, ?_⟩
      simp only [Affords, Phase.afterPropagation, Phase.Affords]
      omega
  | some id =>
    obtain ⟨inBounds, fails⟩ := outcome.falsified id rfl
    refine ⟨⟨intact', inBounds, fails, ?_⟩, intact', ?_, fit, offers, outcome.mode_eq,
      fun _ => watchful, bottom⟩
    · intro above
      rw [heights] at above ⊢
      exact outcome.broken (by simp) above
    · intro steps enough
      have enough := cheaper steps enough
      refine ⟨steps - 1, by omega, ?_⟩
      simp only [Affords, Phase.afterPropagation, Phase.Affords]
      omega

private theorem exists_noteConflict {conflict : Nat} (inBounds : conflict < s.work.db.size) :
    ∃ noted, s.noteConflict conflict = .ok noted := by
  rw [noteConflict, Database.report_of_lt inBounds]
  exact ⟨_, rfl⟩

/-- The analysis of a conflict changes nothing that propagation and the heuristic work on. -/
structure Analyzed (vars : Nat) (start : Database) (s : Solver σ) (analysis : Analysis)
    (s' : Solver σ) : Prop where
  valid : s'.Valid vars start (.backtracking analysis)
  db_eq : s'.work.db = s.work.db
  trail_eq : s'.work.trail = s.work.trail
  propagator_eq : s'.propagator = s.propagator
  branching_eq : s'.branching = s.branching
  fails : ∀ l ∈ analysis.learned, l.FailsOn s.work.trail.stack

/-- A conflict above level zero is analysed. -/
theorem step_analyzing_yields_analyzed {conflict : Nat}
    (valid : s.Valid vars start (.analyzing conflict)) (above : 0 < height s.work.trail.stack) :
    Yields (step (.analyzing conflict) s) fun (phase', s') =>
      ∃ analysis, phase' = .backtracking analysis ∧ Analyzed vars start s analysis s' := by
  obtain ⟨⟨db, t, stats, tracer⟩, p, branching, verifyModel, hasEmptyClause, status⟩ := s
  obtain ⟨intact, inBounds, fails, quiet⟩ := valid
  have level : t.level = height t.stack := intact.coherent.level_eq
  have settled := (quiet above).settled (height t.stack - 1) (Nat.sub_lt above Nat.one_pos)
  obtain ⟨noted, counted⟩ := exists_noteConflict inBounds
  rw [step, counted, ok_bind, eq_of_noteConflict counted,
    if_neg fun bottom => Nat.ne_of_gt above (level.symm.trans bottom)]
  apply (analyze_yields intact.coherent intact.grounded above settled inBounds fails).bind
  rintro ⟨outcome, resolutions⟩ ⟨analysis, rfl, justified, failing⟩
  exact yields_pure_iff.mpr ⟨analysis, rfl,
    ⟨⟨intact, intact.varCount_eq ▸ justified, quiet above⟩, rfl, rfl, rfl, rfl, failing⟩⟩

/-- A conflict at level zero refutes the formula. -/
theorem step_analyzing_of_level_eq_zero {conflict : Nat} {noted : Solver σ}
    (counted : s.noteConflict conflict = .ok noted) (bottom : s.work.trail.level = 0) :
    step (.analyzing conflict) s = .ok (.finished (.ok .unsat), noted) := by
  rw [step, counted, ok_bind, eq_of_noteConflict counted]
  exact if_pos bottom

/-- A conflict at level zero refutes the formula, and any other one is analysed. -/
theorem step_analyzing_yields {conflict : Nat} (valid : s.Valid vars start (.analyzing conflict))
    (fit : s.branching.Fit vars) :
    Yields (step (.analyzing conflict) s) fun (phase', s') =>
      Stepped vars start (.analyzing conflict) s phase' s' := by
  have intact : Intact vars start s.work.db s.work.trail := valid.1
  have level : s.work.trail.level = height s.work.trail.stack := intact.coherent.level_eq
  by_cases bottom : height s.work.trail.stack = 0
  · obtain ⟨-, inBounds, fails, -⟩ := valid
    have refuted := intact.not_satisfiedBy bottom inBounds fails
    obtain ⟨noted, counted⟩ := exists_noteConflict inBounds
    have stepped := step_analyzing_of_level_eq_zero counted (level.trans bottom)
    obtain rfl := eq_of_noteConflict counted
    refine .intro stepped
      ⟨⟨.unsat, rfl, refuted⟩, intact, ?_, fit, id, rfl, id, List.suffix_rfl⟩
    intro steps enough
    simp only [Affords, Phase.Affords] at enough
    exact ⟨steps - 1, by omega, trivial⟩
  · apply (step_analyzing_yields_analyzed valid (Nat.pos_of_ne_zero bottom)).imp
    rintro ⟨_, s'⟩ ⟨analysis, rfl, analyzed⟩
    obtain ⟨valid', dbEq, trailEq, propagatorEq, branchingEq, -⟩ := analyzed
    refine ⟨valid', valid'.1, ?_, branchingEq ▸ fit, ?_, congrArg _ propagatorEq, ?_, ?_⟩
    · intro steps enough
      simp only [Affords, Phase.Affords, trailEq] at enough ⊢
      exact ⟨steps - 1, by omega, by omega⟩
    · rw [branchingEq, trailEq]
      exact id
    · rw [propagatorEq, dbEq]
      exact id
    · exact trailEq ▸ List.suffix_rfl

/-- Raising scores changes nothing but scores and loses no candidate that there is room for. -/
private theorem bumpLearned_yields (fit : s.branching.Fit vars) {learned : List Lit}
    (inRange : ∀ l ∈ learned, l.var < vars) :
    Yields (s.bumpLearned learned) fun s' => s'.work.db = s.work.db ∧
      s'.work.trail = s.work.trail ∧ s'.propagator = s.propagator ∧ s'.branching.Fit vars ∧
      (vars ≤ variableLimit → ∀ var, s.branching.Queued var → s'.branching.Queued var) := by
  obtain ⟨⟨db, t, stats, tracer⟩, p, branching, verifyModel, hasEmptyClause, status⟩ := s
  apply (fit.learn_yields learned inRange).bind
  rintro ⟨decayed, branching'⟩ ⟨fit', kept⟩
  cases decayed
  · exact yields_pure_iff.mpr ⟨rfl, rfl, rfl, fit', kept⟩
  · exact yields_pure_iff.mpr ⟨rfl, rfl, rfl, fit', kept⟩

/-- Going back changes the trail and the candidates only. -/
private theorem backtrack_yields (coherent : s.work.trail.Coherent)
    (fit : s.branching.Fit s.work.trail.varCount) (level : Nat) :
    Yields (s.backtrack level) fun s' => s'.work.db = s.work.db ∧
      s'.work.trail = s.work.trail.backTo level ∧ s'.propagator = s.propagator ∧
      s'.branching.Fit s.work.trail.varCount ∧
      (s.branching.Offers s.work.trail.varCount s.work.trail.stack →
        s'.branching.Offers s.work.trail.varCount (cut level s.work.trail.stack)) := by
  obtain ⟨⟨db, t, stats, tracer⟩, p, branching, verifyModel, hasEmptyClause, status⟩ := s
  apply (fit.releaseAbove_yields coherent level).bind
  rintro branching' ⟨fit', offers⟩
  exact yields_pure_iff.mpr ⟨rfl, rfl, rfl, fit', offers⟩

private structure Stored (vars : Nat) (start : Database) (s : Solver σ) (learned : List Lit)
    (s' : Solver σ) : Prop where
  valid : s'.Valid vars start .propagating
  urgent : s'.work.db.UrgentOn s'.work.trail.stack
  db_eq : s'.work.db = s.work.db.addLearned learned
  trail_eq : s'.work.trail = s.work.trail
  branching_eq : s'.branching = s.branching
  mode_eq : s'.propagator.mode = s.propagator.mode
  pending_eq : s.propagator.mode = .watchedLiterals → s'.propagator.pending = [s.work.db.size]

omit [Tracer σ] in
/-- A learned clause that is asserting makes propagation ready again. -/
private theorem storeLearned_yields {first : Lit} {rest : List Lit}
    (intact : Intact vars start s.work.db s.work.trail)
    (quiet : s.propagator.Quiet s.work.db s.work.trail (height s.work.trail.stack + 1))
    (asserting : Asserting s.work.trail.stack first rest)
    (inRange : ∀ l ∈ first :: rest, l.var < vars)
    (follows : ∀ assignment, s.work.db.SatisfiedBy assignment →
      Satisfies assignment (first :: rest)) :
    Yields (s.storeLearned (first :: rest)) (Stored vars start s (first :: rest)) := by
  obtain ⟨⟨db, t, stats, tracer⟩, p, branching, verifyModel, hasEmptyClause, status⟩ := s
  have distinct := asserting.distinct
  have extended := db.extended_addLearned_of_nodup distinct
  have settled : db.SettledOn t.stack := by
    have current := quiet.settled (height t.stack) (Nat.lt_succ_self _)
    rwa [intact.coherent.stacked.cut_eq_self (Nat.le_refl _)] at current
  have vars_eq : t.varCount = vars := intact.varCount_eq
  apply ((quiet.ready intact.coherent).learn_yields (fun mode => (quiet.idle mode).pending_eq) asserting
    (vars_eq.symm ▸ inRange)).bind
  rintro p' ⟨modeEq, ready, pendingEq⟩
  have intact' := intact.extended extended (by simp) distinct inRange follows
  exact yields_pure_iff.mpr
    ⟨⟨intact', ready⟩, settled.urgentOn intact.coherent.stacked extended asserting, rfl, rfl, rfl,
      modeEq, pendingEq⟩

/-- What going back for a learned clause and storing it leads to, over any number of variables. -/
structure Learned (vars : Nat) (start : Database) (s : Solver σ) (analysis : Analysis)
    (s' : Solver σ) : Prop where
  valid : s'.Valid vars start .propagating
  urgent : s'.work.db.UrgentOn s'.work.trail.stack
  db_eq : s'.work.db = s.work.db.addLearned analysis.learned
  trail_eq : s'.work.trail = s.work.trail.backTo analysis.backtrackLevel
  fit : s'.branching.Fit vars
  offers : vars ≤ variableLimit → s.branching.Offers vars s.work.trail.stack →
    s'.branching.Offers vars s'.work.trail.stack
  mode_eq : s'.propagator.mode = s.propagator.mode
  /-- Propagation along watch lists looks at the learned clause first. -/
  pending_eq : s.propagator.mode = .watchedLiterals → s'.propagator.pending = [s.work.db.size]

/-- After a conflict the search goes back and stores what it learned. -/
theorem step_backtracking_yields_learned {analysis : Analysis}
    (valid : s.Valid vars start (.backtracking analysis)) (fit : s.branching.Fit vars) :
    Yields (step (.backtracking analysis) s) fun (phase', s') =>
      phase' = .propagating ∧ Learned vars start s analysis s' := by
  obtain ⟨intact, ⟨lower, ⟨first, rest, same, asserting⟩, inRange, follows⟩, quiet⟩ := valid
  obtain ⟨learned, level⟩ := analysis
  obtain rfl : learned = first :: rest := same
  obtain rfl := intact.varCount_eq
  have current := intact.coherent.level_eq
  simp only at lower asserting inRange follows
  rw [step, learn, if_neg (by omega), bind_assoc]
  apply (bumpLearned_yields (s := { s with work := { s.work with
    tracer := Tracer.detail (.learned (first :: rest) level) s.work.tracer } }) fit inRange).bind
  rintro bumped ⟨dbEq, trailEq, propagatorEq, fit₁, kept⟩
  simp only at dbEq trailEq propagatorEq
  rw [bind_assoc]
  apply (backtrack_yields (trailEq ▸ intact.coherent) (trailEq ▸ fit₁) level).bind
  rintro returned ⟨dbEq', trailEq', propagatorEq', fit₂, offers⟩
  rw [trailEq] at trailEq' offers fit₂
  rw [dbEq] at dbEq'
  rw [propagatorEq] at propagatorEq'
  have returnedTrail : Trail.Coherent.Returned s.work.trail level returned.work.trail :=
    trailEq' ▸ intact.coherent.backTo level
  have stackEq := returnedTrail.stack_eq
  have heightEq : height returned.work.trail.stack = level := by
    rw [stackEq, intact.coherent.stacked.height_cut (Nat.le_of_lt lower)]
  have quiet' := quiet.backTo lower returnedTrail
  rw [bind_assoc]
  apply (storeLearned_yields (dbEq' ▸ intact.returned returnedTrail)
    (by rw [heightEq, dbEq', propagatorEq']; exact quiet') (stackEq ▸ asserting) inRange
    (dbEq' ▸ follows)).bind
  intro s' stored
  refine yields_pure_iff.mpr ⟨rfl, stored.valid, stored.urgent, dbEq' ▸ stored.db_eq,
    stored.trail_eq.trans trailEq', stored.branching_eq ▸ fit₂, ?_,
    propagatorEq' ▸ stored.mode_eq, ?_⟩
  · intro small offered
    rw [stored.trail_eq, stackEq, stored.branching_eq]
    exact offers fun var bound unassigned => kept small var (offered var bound unassigned)
  · rw [← propagatorEq', ← dbEq']
    exact stored.pending_eq

omit [Tracer σ] in
/-- A return for a learned clause keeps the invariant, and the literal to be forced makes up for what is
taken back. -/
private theorem Learned.stepped {analysis : Analysis} {s' : Solver σ} (small : vars ≤ variableLimit)
    (valid : s.Valid vars start (.backtracking analysis)) (learned : Learned vars start s analysis s') :
    Stepped vars start (.backtracking analysis) s .propagating s' := by
  obtain ⟨intact, justified, -⟩ := valid
  have stacked := intact.coherent.stacked
  have stackEq : s'.work.trail.stack = cut analysis.backtrackLevel s.work.trail.stack := by
    rw [learned.trail_eq, (intact.coherent.backTo _).stack_eq]
  have intact' : Intact vars start s'.work.db s'.work.trail := learned.valid.1
  refine ⟨learned.valid, intact', ?_, learned.fit, learned.offers small, learned.mode_eq, ?_, ?_⟩
  · intro steps enough
    -- The literal to be forced weighs more than all that is taken back.
    have heavier : weight vars s.work.trail.stack <
        weightForced vars (cut analysis.backtrackLevel s.work.trail.stack) :=
      stacked.weight_lt_weightForced justified.lower
        (by simpa [intact.varCount_eq] using intact.coherent.size_le)
    have bound := intact.weight_lt
    simp only [Affords, Phase.Affords] at enough ⊢
    refine ⟨steps - 1, by omega, .inr ⟨learned.urgent, ?_⟩⟩
    rw [stackEq]
    omega
  · exact fun _ => intact'.varCount_eq ▸ learned.valid.2.watchful
  · have bottom : cut 0 s'.work.trail.stack = cut 0 s.work.trail.stack := by
      rw [stackEq, cut_cut (Nat.zero_le _)]
    exact ⟨[], bottom.symm⟩

/-- A step after a conflict keeps the invariant. -/
theorem step_backtracking_yields {analysis : Analysis} (small : vars ≤ variableLimit)
    (valid : s.Valid vars start (.backtracking analysis)) (fit : s.branching.Fit vars) :
    Yields (step (.backtracking analysis) s) fun (phase', s') =>
      Stepped vars start (.backtracking analysis) s phase' s' := by
  apply (step_backtracking_yields_learned valid fit).imp
  rintro ⟨phase', s'⟩ ⟨rfl, learned⟩
  exact learned.stepped small valid

/-- The steps of the phases in which there is nothing to decide. -/
theorem step_other_yields {phase : Phase} (small : vars ≤ variableLimit)
    (valid : s.Valid vars start phase) (fit : s.branching.Fit vars) (decided : phase ≠ .deciding)
    (going : phase.isFinished = false) :
    Yields (step phase s) fun (phase', s') => Stepped vars start phase s phase' s' := by
  cases phase with
  | deciding => exact (decided rfl).elim
  | propagating => exact step_propagating_yields valid fit
  | analyzing conflict => exact step_analyzing_yields valid fit
  | backtracking analysis => exact step_backtracking_yields small valid fit
  | finished outcome => cases going

/-- The search makes a step in every phase but the last. -/
theorem step_yields {phase : Phase} (small : vars ≤ variableLimit) (valid : s.Valid vars start phase)
    (fit : s.branching.Fit vars) (offers : s.branching.Offers vars s.work.trail.stack)
    (going : phase.isFinished = false) :
    Yields (step phase s) fun (phase', s') => Stepped vars start phase s phase' s' := by
  by_cases decided : phase = .deciding
  · subst decided
    exact step_deciding_yields small valid fit offers
  · exact step_other_yields small valid fit decided going

end ClauseLearning.Solver
