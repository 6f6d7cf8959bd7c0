import ClauseLearning.Proofs.Clauses.Novel
import ClauseLearning.Proofs.Invariants
import ClauseLearning.Proofs.Propagation.Assertion
import ClauseLearning.Proofs.Search.Move

/-! # What a search gains from a conflict

Each conflict above level zero yields a clause that is new: it includes none that is there already, be it
given or learned. After the return that goes with it this clause is the only one that forces a literal, so
that its first literal is the next assignment to be made. Both rest on the levels below a conflict being
settled, and hold for any number of variables.
-/

namespace ClauseLearning.Solver

variable {σ : Type} [Tracer σ] {f : Formula} {config : Config} {phase phase' : Phase} {s s' : Solver σ}
  {vars : Nat} {start : Database} {analysis : Analysis}

/-- What a search learns is new: the clause about to be stored includes none that is there, and so it was
for every learned clause at the time. -/
structure LearnsNew (f : Formula) (phase : Phase) (s : Solver σ) : Prop where
  next : ∀ analysis, phase = .backtracking analysis →
    ∀ id < s.work.db.size, ¬ s.work.db.litsOf id ⊆ analysis.learned
  stores : ∀ analysis, phase = .backtracking analysis →
    ∃ s', step phase s = .ok (.propagating, s') ∧ s'.work.db = s.work.db.addLearned analysis.learned
  nonempty : ∀ id, s.work.db.LearnedAt id → s.work.db.litsOf id ≠ []
  past : ∀ id, s.work.db.LearnedAt id → ∀ id' < id, ¬ s.work.db.litsOf id' ⊆ s.work.db.litsOf id
  /-- A learned clause is found under one number, whatever the order of its literals. -/
  once : ∀ id, s.work.db.LearnedAt id → ∀ id' < s.work.db.size,
    (∀ l, l ∈ s.work.db.litsOf id' ↔ l ∈ s.work.db.litsOf id) → id' = id
  /-- Clauses of the formula that were dropped on loading are not made up for either. -/
  beyond : ∀ id, s.work.db.LearnedAt id → ∀ lits ∈ f.clauses.toList,
    lits ⊆ s.work.db.litsOf id → lits = []

/-- A learned clause asserts its first literal right after it has been stored. -/
structure Asserted (s : Solver σ) (analysis : Analysis) (first : Lit) (s' : Solver σ) : Prop where
  head_eq : analysis.learned.head? = some first
  lower : analysis.backtrackLevel < s.work.trail.level
  db_eq : s'.work.db = s.work.db.addLearned analysis.learned
  trail_eq : s'.work.trail = s.work.trail.backTo analysis.backtrackLevel
  level_eq : s'.work.trail.level = analysis.backtrackLevel
  unit : s'.work.status s.work.db.size = .ok (.unit first)
  others : ∀ id < s.work.db.size,
    s'.work.status id = .ok .satisfied ∨ s'.work.status id = .ok .unresolved
  /-- At every moment of the propagation that follows, either nothing has happened yet or the first
  literal stands right above what was left, forced by the new clause at the level returned to. -/
  moments : ∀ conflict p work, Propagator.Underway s'.propagator s'.work conflict p work →
    (conflict = none ∧ p = s'.propagator ∧ work = s'.work) ∨
      s'.work.trail.ContinuedBy ⟨first, analysis.backtrackLevel, .implied s.work.db.size⟩ work.trail
  /-- Propagation, which is the next step, ends in such a moment, and with that literal on the trail. -/
  propagates : ∃ conflict s'', step .propagating s' = .ok (.afterPropagation conflict, s'') ∧
    Propagator.Underway s'.propagator s'.work conflict s''.propagator s''.work ∧
      s'.work.trail.ContinuedBy ⟨first, analysis.backtrackLevel, .implied s.work.db.size⟩ s''.work.trail

section Novelty

omit [Tracer σ] in
/-- The clause derived from a conflict includes none that is there. -/
theorem Consistent.not_subset_learned
    (consistent : Consistent vars config start (.backtracking analysis) s) :
    ∀ id < s.work.db.size, ¬ s.work.db.litsOf id ⊆ analysis.learned := by
  obtain ⟨intact, justified, quiet⟩ := consistent.valid rfl
  obtain ⟨first, rest, same, asserting⟩ := justified.asserting
  intro id inBounds
  rw [same]
  exact asserting.not_subset (intact.coherent.stacked.cut _)
    (quiet.settled _ justified.lower id inBounds)

/-- Every move keeps the clauses given and adds nothing but clauses that are new. -/
private theorem Move.novel (consistent : Consistent vars config start phase s)
    (move : Move vars start s s' phase phase')
    (before : s.work.db.Novel ∧ s.work.db.Retains f.clauses.toList) :
    s'.work.db.Novel ∧ s'.work.db.Retains f.clauses.toList := by
  obtain ⟨novel, retains⟩ := before
  cases move with
  | still _ dbEq _ _ => exact dbEq ▸ ⟨novel, retains⟩
  | decided _ dbEq _ => exact dbEq ▸ ⟨novel, retains⟩
  | propagated propagated =>
    have reordered := (consistent.outcome propagated).advanced.reordered
    exact ⟨novel.reordered reordered, retains.reordered reordered⟩
  | @learned analysis learned =>
    have new := consistent.not_subset_learned
    obtain ⟨intact, justified, -⟩ := consistent.valid rfl
    obtain ⟨first, rest, same, asserting⟩ := justified.asserting
    have stacked := intact.coherent.stacked.cut analysis.backtrackLevel
    rw [learned.db_eq, same]
    rw [same] at new
    exact ⟨novel.addLearned asserting.distinct (fun l => asserting.negate_not_mem stacked) new,
      retains.addLearned asserting.distinct⟩

/-- A clause that is learned includes no clause that is in the database at the time. So a learned clause
includes no clause before it and, as a set of literals, is found under one number only. It includes none
of the clauses of the formula either, those without literals apart. -/
theorem learns_new (built : f.Built) (reachable : Reachable f config phase s) : s.LearnsNew f phase := by
  obtain ⟨⟨start, consistent⟩, novel, retains⟩ := reachable.consistent_and
    (fun _ s => s.work.db.Novel ∧ s.work.db.Retains f.clauses.toList) built
    (fun s loaded => ⟨.of_unlearned loaded.unlearned, fun lits member nonempty clean =>
      (loaded.held lits member nonempty clean).imp fun _ same =>
        ⟨Database.not_learnedAt loaded.unlearned, same⟩⟩)
    fun consistent _ move => move.novel consistent
  refine ⟨?_, ?_, ?_, ?_, ?_, ?_⟩
  · rintro analysis rfl
    exact consistent.not_subset_learned
  · rintro analysis rfl
    obtain ⟨⟨_, s'⟩, stepped, rfl, learned⟩ :=
      step_backtracking_yields_learned (consistent.valid rfl) consistent.fit
    exact ⟨s', stepped, learned.db_eq⟩
  · exact fun id learned => consistent.intact.wellFormed.nonempty id learned.lt_size
  · exact fun id learned id' earlier => novel.new id' id earlier learned
  · exact fun id learned id' inBounds => novel.eq_of_same_lits learned inBounds
  · intro id learned lits member included
    by_contra nonempty
    exact novel.not_subset_of_retains retains learned member nonempty included

/-- The search for a model of `detour` learns a clause of one literal from its first decision. -/
theorem detour_reachable_backtracking : ∃ (s : Solver Recorder) (analysis : Analysis),
    Reachable detour {} (.backtracking analysis) s ∧ analysis.learned = [⟨0, true⟩] ∧
      s.work.db.size = 5 := by
  have run : (new {} detour (Recorder.mk #[]) >>= runRounds 1 2 .propagating).map (fun result =>
      (result.1, result.2.work.db.size)) = .ok (.backtracking ⟨[⟨0, true⟩], 0⟩, 5) := by
    decide +kernel
  obtain ⟨phase, s, reachable, seen⟩ := Reachable.exists_of_runRounds run
  simp only [Prod.mk.injEq] at seen
  obtain ⟨rfl, size⟩ := seen
  exact ⟨s, _, reachable, rfl, size⟩

theorem learns_new_detour : detour.Built ∧
    (∃ (s : Solver Recorder) (analysis : Analysis), Reachable detour {} (.backtracking analysis) s ∧
      analysis.learned = [⟨0, true⟩] ∧ s.work.db.size = 5 ∧
        s.LearnsNew detour (.backtracking analysis)) ∧
    ∃ s : Solver Recorder, Reachable detour {} .deciding s ∧
      s.work.db.learned.map Clause.lits = [[⟨0, true⟩]] ∧ s.LearnsNew detour .deciding := by
  obtain ⟨s, analysis, reachable, learned, size⟩ := detour_reachable_backtracking
  obtain ⟨s', reachable', -, learned', -⟩ := detour_reachable
  exact ⟨detour_built,
    ⟨s, analysis, reachable, learned, size, learns_new detour_built reachable⟩,
    s', reachable', learned', learns_new detour_built reachable'⟩

end Novelty

section Assertion

omit [Tracer σ] in
/-- After a return for a learned clause, this clause alone is forcing, and it is the one pending. -/
private theorem Learned.sole (consistent : Consistent vars config start (.backtracking analysis) s)
    (learned : Learned vars start s analysis s') :
    ∃ first, analysis.learned.head? = some first ∧
      s'.propagator.Sole s'.work s.work.db.size first := by
  obtain ⟨intact, justified, quiet⟩ := consistent.valid rfl
  obtain ⟨first, rest, same, asserting⟩ := justified.asserting
  have extended : s.work.db.Extended (first :: rest) s'.work.db := by
    rw [learned.db_eq, same]
    exact s.work.db.extended_addLearned_of_nodup asserting.distinct
  have sound : s'.work.Sound := learned.valid.1.sound
  have stacked := sound.coherent.stacked
  have stackEq : s'.work.trail.stack = cut analysis.backtrackLevel s.work.trail.stack := by
    rw [learned.trail_eq, (intact.coherent.backTo _).stack_eq]
  rw [← stackEq] at asserting
  have inBounds : s.work.db.size < s'.work.db.size := by
    rw [extended.size_eq]
    omega
  refine ⟨first, by rw [same]; rfl, inBounds, ?_, ?_, fun mode => ?_⟩
  · obtain ⟨status, found, describes⟩ := sound.status_yields inBounds
    rw [extended.litsOf_new] at describes
    rw [found, describes.eq_unit stacked (List.mem_cons_self ..) asserting.isOpen
      fun other member differs => asserting.fails other ((List.mem_cons.mp member).resolve_left differs)]
  · intro id within differs
    have before : id < s.work.db.size := by
      rw [extended.size_eq] at within
      omega
    obtain ⟨status, found, describes⟩ := sound.status_yields within
    have settled := quiet.settled _ justified.lower id before
    rw [← stackEq, ← extended.litsOf_of_lt before] at settled
    rw [found]
    exact (settled.status_eq stacked describes).imp (congrArg _) (congrArg _)
  · exact learned.pending_eq (learned.mode_eq ▸ mode)

/-- The clause learned from a conflict above level zero asserts its first literal at once. -/
theorem learned_asserts {conflict : Nat} (built : f.Built)
    (reachable : Reachable f config (.analyzing conflict) s) (above : 0 < s.work.trail.level) :
    ∃ analysis s₁ s₂ first, step (.analyzing conflict) s = .ok (.backtracking analysis, s₁) ∧
      step (.backtracking analysis) s₁ = .ok (.propagating, s₂) ∧ Asserted s analysis first s₂ := by
  obtain ⟨start, consistent⟩ := reachable.consistent built
  have level := consistent.intact.coherent.level_eq
  obtain ⟨⟨_, s₁⟩, first, analysis, rfl, analyzed⟩ :=
    step_analyzing_yields_analyzed (consistent.valid rfl) (level ▸ above)
  obtain ⟨consistent₁, -⟩ := consistent.step first
  obtain ⟨⟨_, s₂⟩, second, rfl, learned⟩ :=
    step_backtracking_yields_learned (consistent₁.valid rfl) consistent₁.fit
  obtain ⟨l, head, sole⟩ := learned.sole consistent₁
  have lower := (consistent₁.valid rfl).2.1.lower
  have ready := learned.valid.2
  have sound : s₂.work.Sound := learned.valid.1.sound
  have trailEq : s₂.work.trail = s.work.trail.backTo analysis.backtrackLevel := by
    rw [learned.trail_eq, analyzed.trail_eq]
  rw [analyzed.trail_eq] at lower
  have heightEq : height s₂.work.trail.stack = analysis.backtrackLevel := by
    rw [trailEq, (consistent.intact.coherent.backTo _).stack_eq,
      consistent.intact.coherent.stacked.height_cut (Nat.le_of_lt lower)]
  have sizeEq : s₁.work.db.size = s.work.db.size := congrArg Database.size analyzed.db_eq
  rw [sizeEq] at sole
  refine ⟨analysis, s₁, s₂, l, first, second, head, level ▸ lower, ?_, trailEq, ?_, sole.unit, ?_, ?_,
    ?_⟩
  · rw [learned.db_eq, analyzed.db_eq]
  · rw [sound.coherent.level_eq, heightEq]
  · intro id inBounds
    refine sole.others id ?_ (Nat.ne_of_lt inBounds)
    exact Nat.lt_trans inBounds sole.inBounds
  · intro conflict p work underway
    rw [← heightEq]
    exact underway.unchanged_or_continuedBy (ready.safe sound) sole
  · obtain ⟨⟨found, p', work'⟩, propagated, underway, continued⟩ :=
      Propagator.propagate_yields_continuedBy sound ready sole
    rw [heightEq] at continued
    refine ⟨found, { s₂ with propagator := p', work := work' }, ?_, underway, continued⟩
    simp only [step, propagate, propagated, ok_bind]
    rfl

/-- The first decision of the search for a model of `detour` leads to a conflict. -/
theorem detour_reachable_analyzing : ∃ (s : Solver Recorder) (conflict : Nat),
    Reachable detour {} (.analyzing conflict) s ∧ s.work.trail.level = 1 := by
  have run : (new {} detour (Recorder.mk #[]) >>= runRounds 2 0 .propagating).map (fun result =>
      (result.1, result.2.work.trail.level)) = .ok (.analyzing 1, 1) := by
    decide +kernel
  obtain ⟨phase, s, reachable, seen⟩ := Reachable.exists_of_runRounds run
  simp only [Prod.mk.injEq] at seen
  obtain ⟨rfl, level⟩ := seen
  exact ⟨s, _, reachable, level⟩

theorem learned_asserts_detour : detour.Built ∧
    ∃ (s : Solver Recorder) (conflict : Nat), Reachable detour {} (.analyzing conflict) s ∧
      0 < s.work.trail.level ∧
      ∃ analysis s₁ s₂ first, step (.analyzing conflict) s = .ok (.backtracking analysis, s₁) ∧
        step (.backtracking analysis) s₁ = .ok (.propagating, s₂) ∧ Asserted s analysis first s₂ := by
  obtain ⟨s, conflict, reachable, level⟩ := detour_reachable_analyzing
  have above : 0 < s.work.trail.level := by omega
  exact ⟨detour_built, s, conflict, reachable, above, learned_asserts detour_built reachable above⟩

end Assertion

end ClauseLearning.Solver
