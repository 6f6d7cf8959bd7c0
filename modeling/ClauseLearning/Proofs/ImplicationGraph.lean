import ClauseLearning.Proofs.Invariants
import ClauseLearning.Proofs.Propagation.Leading
import ClauseLearning.Proofs.Search.Move
import ClauseLearning.Proofs.Trail.Places

/-! # The trail is an implication graph

The implication graph is nowhere stored: an implied entry of the trail names a clause, and its
predecessors are found by looking at the other literals of this clause. This works as long as the clause
is there, contains the literal, and has its other literals failing through earlier entries. All of this
is so at every moment of a search, between two visits to clauses included, and along watch lists the
literal is the first one of its clause. Each level above the lowest starts with the one decision that
opened it.
-/

namespace ClauseLearning

namespace Trail

/-- Every implied entry has its reason in the database and before it on the trail, and every level above
the lowest starts with its only decision. -/
structure ImplicationGraph (t : Trail) (db : Database) (mode : PropagationMode) : Prop where
  antecedent : ∀ (place : Nat) (a : Assignment) (id : Nat), t.entries[place]? = some a →
    a.reason = .implied id → id < db.size ∧ a.lit ∈ db.litsOf id
  predecessors : ∀ (place : Nat) (a : Assignment) (id : Nat), t.entries[place]? = some a →
    a.reason = .implied id → ∀ l ∈ db.litsOf id, l ≠ a.lit →
      ∃ earlier < place, ∃ b, t.entries[earlier]? = some b ∧ b.lit = l.negate ∧ b.level ≤ a.level
  leading : mode = .watchedLiterals → ∀ (place : Nat) (a : Assignment) (id : Nat),
    t.entries[place]? = some a → a.reason = .implied id → (db.litsOf id).head? = some a.lit
  opened : ∀ k, 1 ≤ k → k ≤ t.level → ∃ (start : Nat) (a : Assignment),
    t.entries[start]? = some a ∧ a.level = k ∧ a.reason = .decision ∧
      ∀ (place : Nat) (b : Assignment), t.entries[place]? = some b → b.level = k →
        start ≤ place ∧ (b.reason = .decision → place = start)

section Graph
variable {t : Trail}

/-- A level above the lowest starts with its only decision. -/
theorem Coherent.exists_start (coherent : t.Coherent) {k : Nat} (positive : 1 ≤ k) (within : k ≤ t.level) :
    ∃ (start : Nat) (a : Assignment), t.entries[start]? = some a ∧ a.level = k ∧ a.reason = .decision ∧
      ∀ (place : Nat) (b : Assignment), t.entries[place]? = some b → b.level = k →
        start ≤ place ∧ (b.reason = .decision → place = start) := by
  rw [coherent.level_eq] at within
  have stacked := coherent.stacked
  have lower : k - 1 < height t.stack := by omega
  obtain ⟨a, isDecision, suffix⟩ := stacked.exists_decision_cut lower
  have decision : a.reason = .decision := eq_of_beq isDecision
  have level : a.level = k := by
    have opens := (stacked.suffix suffix).level_eq
    rw [decision, nextLevel, stacked.height_cut (Nat.le_of_lt lower)] at opens
    omega
  have start := getElem?_of_suffix suffix
  refine ⟨_, a, start, level, decision, fun place b found same => ?_⟩
  have later : (cut (k - 1) t.stack).length ≤ place := by
    by_contra earlier
    have kept := mem_of_suffix (cut_suffix (k - 1) t.stack) (Nat.lt_of_not_le earlier) found
    have bound := (stacked.mem_cut_iff.mp kept).2
    omega
  refine ⟨later, fun decision' => ?_⟩
  -- A second decision would have opened a higher level.
  by_contra differs
  have listed : a ∈ t.before place :=
    mem_before_iff.mpr ⟨_, Nat.lt_of_le_of_ne later (Ne.symm differs), start⟩
  have higher := (stacked.suffix (suffix_of_getElem? found)).lt_of_decision decision' listed
  omega

/-- A stack that is grounded makes the trail an implication graph. -/
theorem Coherent.implicationGraph (coherent : t.Coherent) {db : Database} {mode : PropagationMode}
    (grounded : Grounded db t.stack) (leads : mode = .watchedLiterals → db.LeadsOn t.stack) :
    t.ImplicationGraph db mode := by
  refine ⟨?_, ?_, ?_, fun k positive within => coherent.exists_start positive within⟩
  · intro place a id found reason
    have support := (grounded.suffix (suffix_of_getElem? found)).1 id reason
    exact ⟨Database.lt_size_of_mem support.1, support.1⟩
  · intro place a id found reason l member differs
    have suffix := suffix_of_getElem? found
    obtain ⟨b, listed, same⟩ := ((grounded.suffix suffix).1 id reason).2 l member differs
    obtain ⟨earlier, within, found'⟩ := mem_before_iff.mp listed
    have stacked := coherent.stacked.suffix suffix
    exact ⟨earlier, within, b, found', same,
      Nat.le_trans (stacked.tail.level_le_height listed) stacked.height_below_le⟩
  · intro watched place a id found reason
    exact leads watched a (mem_stack_iff.mpr ⟨place, found⟩) id reason

end Graph

end Trail

namespace Solver
variable {σ : Type} [Tracer σ] {f : Formula} {config : Config} {phase phase' : Phase} {s s' : Solver σ}
  {vars : Nat} {start : Database} {db : Database} {t : Trail}

/-- The clauses and the trail at a state and at the moments that the step from there passes through, and
along watch lists after each visit to a clause, too. The watchers of a literal are taken out of the table
while they are visited. -/
inductive Traverses (s : Solver σ) (phase : Phase) : Database → Trail → Prop
  | passed {p : Propagator} {db : Database} {t : Trail} : s.Passes phase p db t → Traverses s phase db t
  | visited {watches taken : WatchTable} {before : Workspace σ} {l : Lit} {moved : Trail}
      {seen later kept : List Watcher} {conflict : Option Nat} {state : WatchedWorkspace σ} :
      phase = .propagating →
      Propagator.Underway s.propagator s.work none ⟨.watchedLiterals, watches, []⟩ before →
      before.trail.nextToPropagate = some (l, moved) → watches.watchers l = .ok (seen ++ later) →
      watches.put l [] = .ok taken →
      WatchedWorkspace.visitAll l.negate seen ⟨taken, { before with trail := moved }⟩ =
        .ok (conflict, kept, state) →
      Traverses s phase state.work.db state.work.trail

omit [Tracer σ] in
/-- Nothing is implied at the start, and clauses of one literal are pending. -/
private theorem Loaded.leading {s : Solver σ} (loaded : s.Loaded f config) :
    s.propagator.Leading s.work.db s.work.trail := by
  refine ⟨fun _ a listed => ?_, fun mode id listed l member => ?_⟩
  · simp [loaded.trail_eq] at listed
  · obtain ⟨l, single⟩ := (loaded.stocked.pending_iff mode id).mp listed
    simp [single] at member

/-- A move keeps the implied literals in the lead. -/
private theorem Move.leading (consistent : Consistent vars config start phase s)
    (move : Move vars start s s' phase phase') (leading : s.propagator.Leading s.work.db s.work.trail) :
    s'.propagator.Leading s'.work.db s'.work.trail := by
  cases move with
  | still _ dbEq trailEq propagatorEq =>
    rw [dbEq, trailEq, propagatorEq]
    exact leading
  | decided made dbEq propagatorEq =>
    rw [dbEq, propagatorEq]
    refine ⟨fun mode => ?_, fun mode id listed l member => ?_⟩
    · rw [made.stack_eq]
      exact (leading.leads mode).cons fun _ reason => by cases reason
    · rw [made.stack_eq]
      exact (leading.trailing mode id listed l member).mono (List.subset_cons_self _ _)
  | propagated propagated =>
    have safe := (consistent.valid rfl).2.safe consistent.intact.sound
    exact (Propagator.underway_of_propagate safe propagated).leading safe leading
  | @learned analysis learned =>
    obtain ⟨intact, justified, -⟩ := consistent.valid rfl
    obtain ⟨first, rest, same, asserting⟩ := justified.asserting
    have extended := s.work.db.extended_addLearned_of_nodup asserting.distinct
    have stackEq := (intact.coherent.backTo analysis.backtrackLevel).stack_eq
    rw [learned.db_eq, learned.trail_eq, same]
    refine ⟨fun mode => ?_, fun mode id listed l member => ?_⟩
    · have leads := leading.leads (learned.mode_eq ▸ mode)
      rw [stackEq]
      exact (leads.anti (cut_subset _ _)).extended extended
    · rw [learned.pending_eq (learned.mode_eq ▸ mode), List.mem_singleton] at listed
      rw [listed, extended.litsOf_new, List.tail_cons] at member
      rw [stackEq]
      exact asserting.fails l member

/-- Between two visits everything is intact, and the implied literals lead their clauses. -/
private theorem Consistent.visited {watches taken : WatchTable} {before : Workspace σ} {l : Lit}
    {moved : Trail} {seen later kept : List Watcher} {conflict : Option Nat} {state : WatchedWorkspace σ}
    (consistent : Consistent vars config start .propagating s)
    (leading : s.propagator.Leading s.work.db s.work.trail)
    (underway : Propagator.Underway s.propagator s.work none ⟨.watchedLiterals, watches, []⟩ before)
    (next : before.trail.nextToPropagate = some (l, moved))
    (listed : watches.watchers l = .ok (seen ++ later)) (taking : watches.put l [] = .ok taken)
    (visited : WatchedWorkspace.visitAll l.negate seen ⟨taken, { before with trail := moved }⟩ =
      .ok (conflict, kept, state)) :
    Intact vars start state.work.db state.work.trail ∧
      state.work.db.LeadsOn state.work.trail.stack := by
  have safe := (consistent.valid rfl).2.safe consistent.intact.sound
  obtain ⟨⟨sound, watchful, -⟩, advanced, -⟩ := underway.midway safe
  have leads := (underway.leading safe leading).leads rfl
  obtain ⟨coherent, stackEq, varsEq, -, a, rfl, processedEq⟩ :=
    sound.coherent.nextToPropagate_eq_some next
  obtain ⟨movedSound, movedAdvanced⟩ := sound.moveCursor coherent stackEq varsEq
  have member : a ∈ moved.stack :=
    moved.processed_suffix.subset (processedEq ▸ List.mem_cons_self ..)
  obtain ⟨covers, watching⟩ := WatchedWorkspace.watching_of_taken
    (varsEq.symm ▸ watchful.covers rfl) (watchful.watching rfl) (coherent.var_lt member) listed taking
  have fails : a.lit.negate.FailsOn moved.stack := failsOn_negate_iff.mpr ⟨a, member, rfl⟩
  have takenSound : (WatchedWorkspace.mk taken { before with trail := moved }).work.Sound := movedSound
  have swept := (WatchedWorkspace.visitAll_yields seen takenSound covers fails watching).of_eq visited
  refine ⟨consistent.intact.advanced swept.followed.sound
    ((advanced.trans movedAdvanced).trans swept.followed.advanced), ?_⟩
  exact WatchedWorkspace.leadsOn_of_visitAll seen takenSound covers fails watching (stackEq ▸ leads)
    visited

/-- What is there at a moment of the search is intact, and the implied literals lead their clauses. -/
private theorem Consistent.traverses (consistent : Consistent vars config start phase s)
    (leading : s.propagator.Leading s.work.db s.work.trail) (traverses : s.Traverses phase db t) :
    Intact vars start db t ∧ (config.propagation = .watchedLiterals → db.LeadsOn t.stack) := by
  have mode := consistent.mode_eq
  cases traverses with
  | visited propagating underway next listed taking visited =>
    subst propagating
    obtain ⟨intact, leads⟩ := consistent.visited leading underway next listed taking visited
    exact ⟨intact, fun _ => leads⟩
  | passed passes =>
    cases passes with
    | between => exact ⟨consistent.intact, fun watched => leading.leads (mode.trans watched)⟩
    | propagating underway =>
      have safe := (consistent.valid rfl).2.safe consistent.intact.sound
      obtain ⟨safe', advanced, modeEq⟩ := underway.midway safe
      exact ⟨consistent.intact.advanced safe'.sound advanced, fun watched =>
        (underway.leading safe leading).leads (modeEq.trans (mode.trans watched))⟩
    | @returned analysis =>
      have returned := consistent.intact.coherent.backTo analysis.backtrackLevel
      refine ⟨consistent.intact.returned returned, fun watched => ?_⟩
      rw [returned.stack_eq]
      exact (leading.leads (mode.trans watched)).anti (cut_subset _ _)

/-- At every moment of a search the trail is an implication graph over the clauses. -/
theorem implication_graph (built : f.Built) (reachable : Reachable f config phase s)
    (traverses : s.Traverses phase db t) : t.ImplicationGraph db config.propagation := by
  obtain ⟨⟨start, consistent⟩, leading⟩ := reachable.consistent_and
    (fun _ s => s.propagator.Leading s.work.db s.work.trail) built (fun _ loaded => loaded.leading)
    fun consistent _ move => move.leading consistent
  obtain ⟨intact, leads⟩ := consistent.traverses leading traverses
  exact intact.coherent.implicationGraph intact.grounded leads

theorem implication_graph_detour : detour.Built ∧
    ∃ s : Solver Recorder, Reachable detour {} .deciding s ∧
      s.Traverses .deciding s.work.db s.work.trail ∧ s.work.trail.level = 1 ∧
      s.work.trail.entries.toList.countP (fun a => a.level == 0) = 2 ∧
      s.work.trail.ImplicationGraph s.work.db .watchedLiterals := by
  obtain ⟨s, reachable, level, -, bottom⟩ := detour_reachable
  exact ⟨detour_built, s, reachable, .passed .between, level, bottom,
    implication_graph detour_built reachable (.passed .between)⟩

end Solver

end ClauseLearning
