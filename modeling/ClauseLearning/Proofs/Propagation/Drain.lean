import ClauseLearning.Proofs.Propagation.Sweep

/-! # Propagating until the watch lists have nothing left to say

A stack is guarded if every clause that watches a failed literal has a literal that holds. Following
the watch lists guards the stack as far as the cursor has come. Once the cursor is at the end, a
guarded database is settled, provided that its clauses of one literal are: that is how visiting a few
clauses comes to say something about all of them.
-/

namespace ClauseLearning

variable {σ : Type}

/-- Every clause that watches a literal failing on the part of the stack that has been passed has a
literal that holds, except for some. -/
def Database.GuardedOn (db : Database) (exempt : List Nat) (passed stack : List Assignment) : Prop :=
  ∀ id l, db.Watches id l → l.FailsOn passed → id ∈ exempt ∨ db.MetOn id stack

/-- If the clause watches a literal failing on the part of the stack that has been passed, some literal of
it holds. -/
def Database.Guards (db : Database) (id : Nat) (passed stack : List Assignment) : Prop :=
  ∀ l, db.Watches id l → l.FailsOn passed → db.MetOn id stack

namespace Database.GuardedOn
variable {db db' : Database} {exempt : List Nat} {passed stack stack' below : List Assignment}

/-- A guard outlasts every change of the clauses by which none starts to watch a failed literal. -/
theorem rewatched (guarded : db.GuardedOn exempt passed below) (reordered : db.Reordered db')
    (rewatched : ∀ id l, db'.Watches id l → db.Watches id l ∨ ¬ l.FailsOn stack)
    (passedWithin : passed ⊆ stack) (grown : below ⊆ stack') :
    db'.GuardedOn exempt passed stack' := by
  intro id l watches fails
  have before := (rewatched id l watches).resolve_right (not_not.mpr (fails.mono passedWithin))
  exact (guarded id l before fails).imp_right fun met => (met.mono grown).reordered reordered

/-- If the whole stack is guarded and clauses of one literal hold, all clauses are settled. -/
theorem settledOn {vars : Nat} (guarded : db.GuardedOn [] stack stack) (wellFormed : db.WellFormed vars)
    (units : ∀ id l, db.litsOf id = [l] → l.HoldsOn stack) : db.SettledOn stack := by
  intro id inBounds
  match same : db.litsOf id with
  | [] => exact (wellFormed.nonempty id inBounds same).elim
  | [l] => exact .inl ⟨l, List.mem_singleton.mpr rfl, units id l same⟩
  | first :: second :: rest =>
    rw [← same]
    by_cases met : db.MetOn id stack
    · exact .inl met
    have unfailing : ∀ l, l = first ∨ l = second → l.OpenOn stack := by
      intro l watched
      have watches := (Database.watches_iff_of_eq same).mpr watched
      refine ⟨fun holds => met ⟨l, watches.mem, holds⟩, fun fails => ?_⟩
      exact met ((guarded id l watches fails).resolve_left List.not_mem_nil)
    have differ : first ≠ second := by
      have distinct := same ▸ wellFormed.nodup id
      rintro rfl
      exact (List.nodup_cons.mp distinct).1 (List.mem_cons_self ..)
    exact .inr ⟨first, by simp [same], second, by simp [same], differ, unfailing first (.inl rfl),
      unfailing second (.inr rfl)⟩

end Database.GuardedOn

namespace WatchedWorkspace

/-- What holds after all literals from the cursor on have been propagated, up to the first falsified
clause, if some clauses are attached. -/
structure Exhausted (state : WatchedWorkspace σ) (attached : Set Nat) (conflict : Option Nat)
    (state' : WatchedWorkspace σ) : Prop where
  tended : state.Tended state'
  placed : Placed state'.work.db attached state'.watches.listOf
  apart : Apart state.watches.listOf → Apart state'.watches.listOf
  ended : state'.work.trail.cursor = state'.work.trail.size
  guarded : conflict = none → ∀ id ∈ attached,
    state.work.db.Guards id state.work.trail.processed state.work.trail.stack →
      state'.work.db.Guards id state'.work.trail.stack state'.work.trail.stack
  falsified : ∀ id, conflict = some id → state'.work.Falsified id

/-- What holds after all literals from the cursor on have been propagated, up to the first falsified
clause. -/
structure Drained (state : WatchedWorkspace σ) (conflict : Option Nat)
    (state' : WatchedWorkspace σ) : Prop where
  followed : state.Followed state'
  watching : Watching state'.work.db state'.watches.listOf
  ended : state'.work.trail.cursor = state'.work.trail.size
  guarded : conflict = none →
    state'.work.db.GuardedOn [] state'.work.trail.stack state'.work.trail.stack
  falsified : ∀ id, conflict = some id → state'.work.Falsified id

variable [Tracer σ] {attached : Set Nat}

omit [Tracer σ] in
/-- Once the consequences of the assignment just passed are drawn, it is guarded like those before. -/
private theorem Pursued.guards_processed {state middle state' : WatchedWorkspace σ} {a : Assignment}
    (pursued : Pursued middle attached a.lit none state') (coherent : middle.work.trail.Coherent)
    (passed : middle.work.trail.processed = a :: state.work.trail.processed)
    (tended : state.Tended state') {id : Nat} (isAttached : id ∈ attached)
    (guards : state.work.db.Guards id state.work.trail.processed state.work.trail.stack) :
    state'.work.db.Guards id state'.work.trail.processed state'.work.trail.stack := by
  obtain ⟨added, grown, -⟩ := pursued.tended.advanced.grown
  intro l watched fails
  rw [(coherent.processed_eq grown pursued.cursor_eq).trans passed, failsOn_cons_iff] at fails
  rcases fails with same | fails
  · have same : l = a.lit.negate := by rw [same, l.negate_negate]
    exact pursued.guarded rfl id isAttached (same ▸ watched)
  · have before := (tended.rewatched id l watched).resolve_right
      (not_not.mpr (fails.mono state.work.trail.processed_suffix.subset))
    exact tended.advanced.metOn (guards l before fails)

/-- Propagation along the watch lists ends, since every round passes an assignment. What the cursor
has passed stays guarded. -/
theorem drain_tends (steps : Nat) (state : WatchedWorkspace σ) (orderly : state.work.Orderly)
    (covers : state.watches.Covers state.work.trail.varCount)
    (placed : Placed state.work.db attached state.watches.listOf)
    (enough : state.work.trail.varCount < steps + state.work.trail.cursor) :
    Yields (drain steps state) fun (conflict, state') => Exhausted state attached conflict state' := by
  induction steps generalizing state with
  | zero =>
    have passed := orderly.coherent.cursor_le
    have bound := orderly.coherent.size_le
    omega
  | succ steps ih =>
    obtain ⟨watches, ⟨db, trail, stats, tracer⟩⟩ := state
    have passed := orderly.coherent.cursor_le
    rw [drain]
    cases next : trail.nextToPropagate with
    | none =>
      have ended := Trail.nextToPropagate_eq_none next
      have all := Trail.processed_eq_stack ended
      refine yields_pure_iff.mpr ⟨.refl orderly covers, placed, id, Nat.le_antisymm passed ended, ?_,
        by simp⟩
      exact fun _ id _ guards => all ▸ guards
    | some found =>
      obtain ⟨l, moved⟩ := found
      obtain ⟨coherent, stackEq, varsEq, cursorEq, a, rfl, processedEq⟩ :=
        orderly.coherent.nextToPropagate_eq_some next
      obtain ⟨movedOrderly, movedAdvanced⟩ := orderly.moveCursor coherent stackEq varsEq
      have movedTended : Tended ⟨watches, ⟨db, trail, stats, tracer⟩⟩
          ⟨watches, ⟨db, moved, stats, tracer⟩⟩ := by
        refine ⟨movedOrderly, movedAdvanced, fun grounded => ?_, varsEq ▸ covers, fun _ _ => .inl⟩
        exact stackEq.symm ▸ grounded
      have holds : a.lit.HoldsOn moved.stack := by
        refine ⟨a, moved.processed_suffix.subset ?_, rfl⟩
        simp [processedEq]
      apply (propagateLit_tends movedOrderly movedTended.covers placed holds).bind
      rintro ⟨conflict, ⟨watches', work'⟩⟩ pursued
      have tended := movedTended.trans pursued.tended
      cases conflict with
      | some id =>
        obtain ⟨skippedOrderly, skippedAdvanced⟩ :=
          tended.orderly.moveCursor tended.orderly.coherent.skipPropagation rfl rfl
        refine yields_pure_iff.mpr ⟨tended.trans ⟨skippedOrderly, skippedAdvanced,
          fun grounded => grounded, tended.covers, fun _ _ => .inl⟩, pursued.placed, pursued.apart, rfl,
          by simp, ?_⟩
        rintro _ ⟨⟩
        obtain ⟨inBounds, fails⟩ := pursued.falsified id rfl
        exact ⟨inBounds, fails⟩
      | none =>
        have enough' : work'.trail.varCount < steps + work'.trail.cursor := by
          have vars : work'.trail.varCount = trail.varCount := tended.advanced.varCount_eq
          have cursor : work'.trail.cursor = trail.cursor + 1 := pursued.cursor_eq.trans cursorEq
          have before : trail.varCount < steps + 1 + trail.cursor := enough
          omega
        apply (ih _ pursued.tended.orderly pursued.tended.covers pursued.placed enough').imp
        rintro ⟨conflict, state'⟩ exhausted
        refine ⟨tended.trans exhausted.tended, exhausted.placed, exhausted.apart ∘ pursued.apart,
          exhausted.ended, fun clear id isAttached guards => ?_, exhausted.falsified⟩
        exact exhausted.guarded clear id isAttached
          (pursued.guards_processed coherent processedEq tended isAttached guards)

/-- Propagation along the watch lists of all clauses keeps the lists right and guards the whole stack. -/
theorem drain_yields (steps : Nat) {state : WatchedWorkspace σ} (sound : state.work.Sound)
    (covers : state.watches.Covers state.work.trail.varCount)
    (watching : Watching state.work.db state.watches.listOf)
    (guarded : state.work.db.GuardedOn [] state.work.trail.processed state.work.trail.stack)
    (enough : state.work.trail.varCount < steps + state.work.trail.cursor) :
    Yields (drain steps state) fun (conflict, state') => Drained state conflict state' := by
  apply (drain_tends steps state sound.orderly covers watching.placed enough).imp
  rintro ⟨conflict, state'⟩ exhausted
  refine ⟨exhausted.tended.followed sound, exhausted.placed.watching (exhausted.apart watching.apart),
    exhausted.ended, fun clear id l watches fails => .inr ?_, exhausted.falsified⟩
  refine exhausted.guarded clear id trivial (fun l watches fails => ?_) l watches fails
  exact (guarded id l watches fails).resolve_left List.not_mem_nil

end WatchedWorkspace

end ClauseLearning
