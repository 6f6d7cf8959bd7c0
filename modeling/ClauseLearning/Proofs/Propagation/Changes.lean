import ClauseLearning.Proofs.Propagation.Underway

/-! # Propagation, change by change

In either form propagation makes three kinds of change to its workspace: it puts the literals of a clause
into another order, it moves the cursor, and it implies a literal that a clause forces. `LeadsTo` is the
relation between the workspaces before and after any number of them. What is kept by these three changes
is kept by propagation, whatever the clauses it looks at and the order in which it does.
-/

namespace ClauseLearning

variable {σ : Type} [Tracer σ]

/-- Changes that propagation makes lead from one workspace to the other. -/
inductive Workspace.LeadsTo (work : Workspace σ) : Workspace σ → Prop
  | refl : LeadsTo work work
  | reorder {middle : Workspace σ} {id : Nat} {lits : List Lit} : LeadsTo work middle →
      id < middle.db.size → lits.Perm (middle.db.litsOf id) → LeadsTo work (middle.reorder id lits)
  | moveCursor {middle : Workspace σ} {cursor : Nat} : LeadsTo work middle →
      cursor ≤ middle.trail.size → LeadsTo work { middle with trail := { middle.trail with cursor } }
  /-- A clause forces its last literal that does not fail, at the current level. -/
  | imply {middle work' : Workspace σ} {id : Nat} {l : Lit} : LeadsTo work middle →
      l ∈ middle.db.litsOf id →
      (∀ other ∈ middle.db.litsOf id, other ≠ l → other.FailsOn middle.trail.stack) →
      middle.imply l id = .ok work' → LeadsTo work work'

namespace Workspace.LeadsTo
variable {work middle work' : Workspace σ} {id : Nat} {l : Lit} {lits : List Lit}

theorem trans (first : work.LeadsTo middle) (second : middle.LeadsTo work') : work.LeadsTo work' := by
  induction second with
  | refl => exact first
  | reorder _ inBounds perm ih => exact ih.reorder inBounds perm
  | moveCursor _ bound ih => exact ih.moveCursor bound
  | imply _ member fails implied ih => exact ih.imply member fails implied

theorem coherent (leads : work.LeadsTo work') (coherent : work.trail.Coherent) :
    work'.trail.Coherent := by
  induction leads with
  | refl => exact coherent
  | reorder _ _ _ ih => exact ih
  | moveCursor _ bound ih => exact ih.moveCursor bound
  | imply _ _ _ implied ih =>
    obtain ⟨t', made, rfl⟩ := exists_of_imply implied
    exact (ih.made_of_imply made).coherent

/-- What a clause implied, it forced, as long as the outcome is sound. -/
theorem of_imply (coherent : work.trail.Coherent) (implied : work.imply l id = .ok work')
    (sound : work'.Sound) : work.LeadsTo work' := by
  obtain ⟨t', made, rfl⟩ := exists_of_imply implied
  have grounded := sound.grounded
  simp only [(coherent.made_of_imply made).stack_eq] at grounded
  obtain ⟨member, fails⟩ := grounded.1 id rfl
  exact .imply .refl member fails implied

end Workspace.LeadsTo

namespace WatchedWorkspace
variable {state state' : WatchedWorkspace σ} {failed : Lit}

/-- A visit reorders the clause and may imply its first literal. -/
private theorem leadsTo_of_visit {watcher : Watcher} {done rest : List Watcher} {result : Visit σ}
    (sound : state.work.Sound) (covers : state.watches.Covers state.work.trail.varCount)
    (fails : failed.FailsOn state.work.trail.stack)
    (watching : Watching state.work.db
      (Function.update state.watches.listOf failed.negate (done ++ watcher :: rest)))
    (visited : visit state failed watcher = .ok result) : state.work.LeadsTo result.state.work := by
  have followed := ((visit_yields sound covers fails watching).of_eq visited).followed
  obtain ⟨watches, work⟩ := state
  obtain ⟨blocked, -, onward⟩ := Checked.bind_eq_ok_iff.mp visited
  split at onward
  · cases onward
    exact .refl
  obtain ⟨clause, found, onward⟩ := Checked.bind_eq_ok_iff.mp onward
  obtain ⟨⟨first, others⟩, -, onward⟩ := Checked.bind_eq_ok_iff.mp onward
  obtain ⟨value, -, onward⟩ := Checked.bind_eq_ok_iff.mp onward
  obtain ⟨replaced, -, onward⟩ := Checked.bind_eq_ok_iff.mp onward
  have inBounds := Database.lt_size_of_clause found
  -- The order that the clause ends up in is one of its literals because propagation only reorders.
  have reordered : ∀ lits, work.db.Reordered (work.reorder watcher.clause lits).db →
      work.LeadsTo (work.reorder watcher.clause lits) := by
    intro lits same
    have perm := same.perm watcher.clause
    have now : (work.reorder watcher.clause lits).db.litsOf watcher.clause = lits :=
      Database.litsOf_reorder_self inBounds
    exact Workspace.LeadsTo.refl.reorder inBounds (now ▸ perm)
  cases replaced with
  | some replacement =>
    obtain ⟨watches', -, same⟩ := Checked.bind_eq_ok_iff.mp onward
    cases same
    exact reordered _ followed.advanced.reordered
  | none =>
    cases value with
    | holds | fails =>
      cases onward
      exact reordered _ followed.advanced.reordered
    | unknown =>
      obtain ⟨work', implied, same⟩ := Checked.bind_eq_ok_iff.mp onward
      cases same
      have coherent : (work.reorder watcher.clause (first :: failed :: others)).trail.Coherent :=
        sound.coherent
      have dbEq : work'.db = (work.reorder watcher.clause (first :: failed :: others)).db := by
        obtain ⟨t', -, rfl⟩ := Workspace.exists_of_imply implied
        rfl
      exact (reordered _ (dbEq ▸ followed.advanced.reordered)).trans
        (.of_imply coherent implied followed.sound)

/-- So do all visits on account of a failed literal. -/
private theorem leadsTo_of_visitAll (watchers : List Watcher) {done kept : List Watcher}
    {conflict : Option Nat} (sound : state.work.Sound)
    (covers : state.watches.Covers state.work.trail.varCount)
    (fails : failed.FailsOn state.work.trail.stack)
    (watching : Watching state.work.db
      (Function.update state.watches.listOf failed.negate (done ++ watchers)))
    (visited : visitAll failed watchers state = .ok (conflict, kept, state')) :
    state.work.LeadsTo state'.work := by
  induction watchers generalizing state done kept with
  | nil =>
    cases visited
    exact .refl
  | cons watcher rest ih =>
    obtain ⟨first, found, onward⟩ := Checked.bind_eq_ok_iff.mp visited
    have frame := (visit_yields sound covers fails watching).of_eq found
    have leads := leadsTo_of_visit sound covers fails watching found
    have fails' := fails.mono frame.followed.advanced.subset
    cases first with
    | kept watcher' middle =>
      obtain ⟨⟨found, kept', last⟩, others, same⟩ := Checked.bind_eq_ok_iff.mp onward
      cases same
      exact leads.trans (ih frame.followed.sound frame.followed.covers fails' frame.watching others)
    | moved middle =>
      exact leads.trans (ih frame.followed.sound frame.followed.covers fails' frame.watching onward)
    | falsified watcher' middle =>
      cases onward
      exact leads

/-- Drawing the consequences of a literal is a matter of visits. -/
private theorem leadsTo_of_propagateLit {l : Lit} {conflict : Option Nat} (sound : state.work.Sound)
    (covers : state.watches.Covers state.work.trail.varCount)
    (watching : Watching state.work.db state.watches.listOf)
    (holds : l.HoldsOn state.work.trail.stack)
    (drawn : propagateLit state l = .ok (conflict, state')) : state.work.LeadsTo state'.work := by
  obtain ⟨watches, work⟩ := state
  obtain ⟨a, member, rfl⟩ := holds
  obtain ⟨watchers, listed, onward⟩ := Checked.bind_eq_ok_iff.mp drawn
  obtain ⟨taken, taking, onward⟩ := Checked.bind_eq_ok_iff.mp onward
  obtain ⟨⟨found, kept, ⟨swept, work'⟩⟩, visited, onward⟩ := Checked.bind_eq_ok_iff.mp onward
  obtain ⟨returned, -, same⟩ := Checked.bind_eq_ok_iff.mp onward
  cases same
  obtain ⟨takenCovers, takenWatching⟩ := watching_of_taken covers watching
    (sound.coherent.var_lt member) (by rw [listed, List.append_nil]) taking
  have takenSound : (WatchedWorkspace.mk taken work).work.Sound := sound
  have leads := leadsTo_of_visitAll watchers takenSound takenCovers
    (failsOn_negate_iff.mpr ⟨a, member, rfl⟩) takenWatching visited
  exact leads

end WatchedWorkspace

namespace Propagator
variable {p p' : Propagator} {work work' : Workspace σ} {conflict : Option Nat}

/-- Looking at a clause by its status makes no change, or implies the literal that it forces. -/
private theorem leadsTo_of_settle {id : Nat} {left : List Nat} (coherent : work.trail.Coherent)
    (settled : settle [id] work = .ok (conflict, left, work')) (sound : work'.Sound) :
    work.LeadsTo work' := by
  obtain ⟨status, -, onward⟩ := Checked.bind_eq_ok_iff.mp settled
  cases status with
  | satisfied | conflicting | unresolved =>
    cases onward
    exact .refl
  | unit l =>
    obtain ⟨middle, implied, same⟩ := Checked.bind_eq_ok_iff.mp onward
    cases same
    exact .of_imply coherent implied sound

/-- The changes made by any moment in the course of propagation. -/
theorem Underway.leadsTo (underway : Underway p work conflict p' work') (safe : p.Safe work) :
    work.LeadsTo work' := by
  induction underway with
  | begun => exact .refl
  | looked moment looked ih =>
    have sound := (moment.midway safe).safe.sound
    have after := ((moment.looked looked).midway safe).safe.sound
    exact ih.trans (leadsTo_of_settle sound.coherent looked after)
  | @drawn watches watches' l passed conflict before after moment next drawn ih =>
    obtain ⟨sound, watchful, -⟩ := (moment.midway safe).safe
    obtain ⟨coherent, stackEq, varsEq, cursorEq, a, rfl, processedEq⟩ :=
      sound.coherent.nextToPropagate_eq_some next
    have moved : passed = { before.trail with cursor := before.trail.cursor + 1 } := by
      simp only [Trail.nextToPropagate] at next
      split at next
      · exact (Prod.mk.inj (Option.some.inj next)).2.symm
      · cases next
    have within : before.trail.cursor + 1 ≤ before.trail.size := by
      have bound := coherent.cursor_le
      rwa [moved] at bound
    obtain ⟨movedSound, -⟩ := sound.moveCursor coherent stackEq varsEq
    have holds : a.lit.HoldsOn passed.stack :=
      ⟨a, passed.processed_suffix.subset (processedEq ▸ List.mem_cons_self ..), rfl⟩
    have onward := WatchedWorkspace.leadsTo_of_propagateLit movedSound
      (varsEq.symm ▸ watchful.covers rfl) (watchful.watching rfl) holds drawn
    rw [moved] at onward
    exact (ih.moveCursor within).trans onward
  | skipped _ ih => exact ih.moveCursor (Nat.le_refl _)
  | scanned moment inBounds scanned ih =>
    have sound := (moment.midway safe).safe.sound
    have after := ((moment.scanned inBounds scanned).midway safe).safe.sound
    rw [rescanPass_eq_settle] at scanned
    obtain ⟨result, looked, same⟩ := Checked.bind_eq_ok_iff.mp scanned
    cases same
    exact ih.trans (leadsTo_of_settle sound.coherent looked after)

/-- Propagation makes no other changes. -/
theorem leadsTo_of_propagate {result : Propagated σ} (safe : p.Safe work)
    (propagated : p.propagate work = .ok result) : work.LeadsTo result.work :=
  (underway_of_propagate safe propagated).leadsTo safe

end Propagator

end ClauseLearning
