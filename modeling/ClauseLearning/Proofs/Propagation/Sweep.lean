import ClauseLearning.Proofs.Propagation.Visit

/-! # Visiting all clauses that watch a failed literal

While the watchers of a literal are visited, its list is taken out of the table. The watchers visited
so far and kept, followed by those not visited yet, take its place in the statement that the lists
are right; in the end they are put back.
-/

namespace ClauseLearning.WatchedWorkspace

variable {σ : Type}

/-- What holds after the watchers of a list have been visited, up to the first falsified clause, if some
clauses are attached. -/
structure Combed (state : WatchedWorkspace σ) (attached : Set Nat) (failed : Lit)
    (done watchers : List Watcher) (conflict : Option Nat) (kept : List Watcher)
    (state' : WatchedWorkspace σ) : Prop where
  tended : state.Tended state'
  cursor_eq : state'.work.trail.cursor = state.work.trail.cursor
  placed : Placed state'.work.db attached
    (Function.update state'.watches.listOf failed.negate (done ++ kept))
  apart : Apart (Function.update state.watches.listOf failed.negate (done ++ watchers)) →
    Apart (Function.update state'.watches.listOf failed.negate (done ++ kept))
  /-- A clause that watches the failed literal still has a literal that holds. -/
  guarded : conflict = none → ∀ watcher ∈ watchers, state'.work.db.Watches watcher.clause failed →
    state'.work.db.MetOn watcher.clause state'.work.trail.stack
  falsified : ∀ id, conflict = some id → state'.work.Falsified id

/-- What holds after the watchers of a list have been visited if all clauses are attached. -/
structure Swept (state : WatchedWorkspace σ) (failed : Lit) (done watchers : List Watcher)
    (conflict : Option Nat) (kept : List Watcher) (state' : WatchedWorkspace σ) : Prop where
  followed : state.Followed state'
  cursor_eq : state'.work.trail.cursor = state.work.trail.cursor
  watching : Watching state'.work.db
    (Function.update state'.watches.listOf failed.negate (done ++ kept))
  /-- A clause that watches the failed literal still has a literal that holds. -/
  guarded : conflict = none → ∀ watcher ∈ watchers, state'.work.db.Watches watcher.clause failed →
    state'.work.db.MetOn watcher.clause state'.work.trail.stack
  falsified : ∀ id, conflict = some id → state'.work.Falsified id

/-- What holds after the consequences of a literal have been drawn, if some clauses are attached. -/
structure Pursued (state : WatchedWorkspace σ) (attached : Set Nat) (l : Lit) (conflict : Option Nat)
    (state' : WatchedWorkspace σ) : Prop where
  tended : state.Tended state'
  cursor_eq : state'.work.trail.cursor = state.work.trail.cursor
  placed : Placed state'.work.db attached state'.watches.listOf
  apart : Apart state.watches.listOf → Apart state'.watches.listOf
  guarded : conflict = none → ∀ id ∈ attached, state'.work.db.Watches id l.negate →
    state'.work.db.MetOn id state'.work.trail.stack
  falsified : ∀ id, conflict = some id → state'.work.Falsified id

/-- What holds after the consequences of a literal have been drawn if all clauses are attached. -/
structure Drawn (state : WatchedWorkspace σ) (l : Lit) (conflict : Option Nat)
    (state' : WatchedWorkspace σ) : Prop where
  followed : state.Followed state'
  cursor_eq : state'.work.trail.cursor = state.work.trail.cursor
  watching : Watching state'.work.db state'.watches.listOf
  guarded : conflict = none → ∀ id, state'.work.db.Watches id l.negate →
    state'.work.db.MetOn id state'.work.trail.stack
  falsified : ∀ id, conflict = some id → state'.work.Falsified id

variable [Tracer σ] {state : WatchedWorkspace σ} {attached : Set Nat} {failed : Lit}

/-- One visit after the other keeps the watchers in place. -/
theorem visitAll_tends (watchers : List Watcher) {done : List Watcher} (orderly : state.work.Orderly)
    (covers : state.watches.Covers state.work.trail.varCount)
    (fails : failed.FailsOn state.work.trail.stack)
    (placed : Placed state.work.db attached
      (Function.update state.watches.listOf failed.negate (done ++ watchers))) :
    Yields (visitAll failed watchers state) fun (conflict, kept, state') =>
      Combed state attached failed done watchers conflict kept state' := by
  induction watchers generalizing state done with
  | nil =>
    exact yields_pure_iff.mpr ⟨.refl orderly covers, rfl, placed, id, by simp, by simp⟩
  | cons watcher rest ih =>
    rw [visitAll]
    apply (visit_tends orderly covers fails placed).bind
    intro visit attended
    have fails' := fails.mono attended.tended.advanced.subset
    -- The rest of the list is visited with what the first visit leaves in front of it.
    have onward : visit.conflict = none →
        Yields (visitAll failed rest visit.state) fun (conflict, kept, state') =>
          Combed state attached failed done (watcher :: rest) conflict (visit.left ++ kept)
            state' := by
      intro passed
      apply (ih attended.tended.orderly attended.tended.covers fails' attended.placed).imp
      rintro ⟨conflict, kept, state'⟩ combed
      refine ⟨attended.tended.trans combed.tended, combed.cursor_eq.trans attended.cursor_eq, ?_, ?_,
        ?_, combed.falsified⟩
      · rw [← List.append_assoc]
        exact combed.placed
      · rw [← List.append_assoc]
        exact fun apart => combed.apart (attended.apart apart)
      · intro clear other member watches
        rcases List.mem_cons.mp member with rfl | member
        · have before := (combed.tended.rewatched _ _ watches).resolve_right (not_not.mpr fails')
          exact combed.tended.advanced.metOn (attended.guarded passed before)
        · exact combed.guarded clear other member watches
    cases visit with
    | kept watcher' state₁ =>
      apply (onward rfl).bind
      rintro ⟨conflict, kept, state'⟩ combed
      exact yields_pure_iff.mpr combed
    | moved state₁ => exact onward rfl
    | falsified watcher' state₁ =>
      refine yields_pure_iff.mpr ⟨attended.tended, attended.cursor_eq, ?_, ?_, by simp,
        attended.falsified⟩
      · simpa [Visit.left, Visit.state] using attended.placed
      · simpa [Visit.left, Visit.state] using attended.apart

/-- One visit after the other keeps the watch lists right. -/
theorem visitAll_yields (watchers : List Watcher) {done : List Watcher} (sound : state.work.Sound)
    (covers : state.watches.Covers state.work.trail.varCount)
    (fails : failed.FailsOn state.work.trail.stack)
    (watching : Watching state.work.db
      (Function.update state.watches.listOf failed.negate (done ++ watchers))) :
    Yields (visitAll failed watchers state) fun (conflict, kept, state') =>
      Swept state failed done watchers conflict kept state' :=
  (visitAll_tends watchers sound.orderly covers fails watching.placed).imp fun _ combed =>
    ⟨combed.tended.followed sound, combed.cursor_eq,
      combed.placed.watching (combed.apart watching.apart), combed.guarded, combed.falsified⟩

/-- While the watchers of a literal are visited, the lists are right with those visited put last. -/
theorem watching_of_taken {watches taken : WatchTable} {db : Database} {vars : Nat} {l : Lit}
    {seen later : List Watcher} (covers : watches.Covers vars) (watching : Watching db watches.listOf)
    (inRange : l.var < vars) (listed : watches.watchers l = .ok (seen ++ later))
    (taking : watches.put l [] = .ok taken) : taken.Covers vars ∧
      Watching db (Function.update taken.listOf l.negate.negate (later ++ seen)) := by
  have listOf : seen ++ later = watches.listOf l :=
    (WatchTable.watchers_yields covers inRange).of_eq listed
  obtain ⟨takenCovers, takenLists⟩ := (WatchTable.put_yields covers inRange []).of_eq taking
  have perm : ∀ other, (watches.listOf other).Perm
      (Function.update taken.listOf l.negate.negate (later ++ seen) other) := by
    intro other
    rw [takenLists, l.negate_negate, Function.update_idem]
    by_cases same : other = l
    · rw [same, Function.update_self, ← listOf]
      exact List.perm_append_comm
    · rw [Function.update_of_ne same]
  exact ⟨takenCovers, (watching.placed.perm perm).watching (watching.apart.perm perm)⟩

/-- After the consequences of a literal have been drawn, every attached clause that watches its negation
has a literal that holds, unless one was found falsified. -/
theorem propagateLit_tends {l : Lit} (orderly : state.work.Orderly)
    (covers : state.watches.Covers state.work.trail.varCount)
    (placed : Placed state.work.db attached state.watches.listOf)
    (holds : l.HoldsOn state.work.trail.stack) :
    Yields (propagateLit state l) fun (conflict, state') =>
      Pursued state attached l conflict state' := by
  obtain ⟨watches, work⟩ := state
  obtain ⟨a, member, rfl⟩ := holds
  have inRange := orderly.coherent.var_lt member
  rw [propagateLit]
  apply (WatchTable.watchers_yields covers inRange).bind
  rintro watchers rfl
  apply (WatchTable.put_yields covers inRange []).bind
  rintro taken ⟨takenCovers, takenLists⟩
  have fails : a.lit.negate.FailsOn work.trail.stack :=
    failsOn_negate_iff.mpr ⟨a, member, rfl⟩
  have taking : Function.update taken.listOf a.lit.negate.negate ([] ++ watches.listOf a.lit) =
      watches.listOf := by
    simp [takenLists]
  refine Yields.bind
    (visitAll_tends (watches.listOf a.lit) orderly takenCovers fails (taking.symm ▸ placed)) ?_
  rintro ⟨conflict, kept, ⟨swept, work'⟩⟩ combed
  have inRange' : a.lit.var < work'.trail.varCount :=
    combed.tended.advanced.varCount_eq.symm ▸ inRange
  apply (WatchTable.put_yields combed.tended.covers inRange' kept).bind
  rintro returned ⟨returnedCovers, returnedLists⟩
  have returning : Function.update swept.listOf a.lit.negate.negate ([] ++ kept) =
      returned.listOf := by
    rw [returnedLists, Lit.negate_negate, List.nil_append]
  have frame := combed.tended
  refine yields_pure_iff.mpr ⟨⟨frame.orderly, frame.advanced, frame.grounds, returnedCovers,
    frame.rewatched⟩, combed.cursor_eq, returning ▸ combed.placed, ?_, ?_, combed.falsified⟩
  · intro apart
    exact returning ▸ combed.apart (taking.symm ▸ apart)
  · intro clear id isAttached watched
    have before : work.db.Watches id a.lit.negate :=
      (frame.rewatched id _ watched).resolve_right (not_not.mpr fails)
    obtain ⟨watcher, listed, rfl⟩ :=
      List.mem_map.mp ((placed.watched a.lit id).mpr ⟨isAttached, before⟩)
    exact combed.guarded clear watcher listed watched

/-- After the consequences of a literal have been drawn, every clause that watches its negation has a
literal that holds, unless one was found falsified. -/
theorem propagateLit_yields {l : Lit} (sound : state.work.Sound)
    (covers : state.watches.Covers state.work.trail.varCount)
    (watching : Watching state.work.db state.watches.listOf)
    (holds : l.HoldsOn state.work.trail.stack) :
    Yields (propagateLit state l) fun (conflict, state') => Drawn state l conflict state' :=
  (propagateLit_tends sound.orderly covers watching.placed holds).imp fun _ pursued =>
    ⟨pursued.tended.followed sound, pursued.cursor_eq,
      pursued.placed.watching (pursued.apart watching.apart),
      fun clear id => pursued.guarded clear id trivial, pursued.falsified⟩

end ClauseLearning.WatchedWorkspace
