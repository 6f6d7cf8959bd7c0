import ClauseLearning.Proofs.Propagation.Propagator

/-! # What holds in the course of propagation

A call of propagation looks at one clause after the other or, along watch lists, draws the consequences
of one literal after the other. `Underway` is the relation between the start of a call and each moment
at which it is done with one of them. The call ends in such a moment, and at each of them the watch
lists are right and what was added to the trail is grounded.
-/

namespace ClauseLearning.Propagator

variable {σ : Type} [Tracer σ]

/-- A moment in the course of propagation: the clause found falsified by then, if any, which ends the
call, with the bookkeeping and the workspace. Rescanning may come to the clauses in any order. -/
inductive Underway (p : Propagator) (work : Workspace σ) :
    Option Nat → Propagator → Workspace σ → Prop
  | begun : Underway p work none p work
  /-- The first pending clause has been looked at. -/
  | looked {watches : WatchTable} {id : Nat} {rest : List Nat} {conflict : Option Nat}
      {before after : Workspace σ} :
      Underway p work none ⟨.watchedLiterals, watches, id :: rest⟩ before →
      settle [id] before = .ok (conflict, [], after) →
      Underway p work conflict ⟨.watchedLiterals, watches, rest⟩ after
  /-- The consequences of the next literal of the trail have been drawn along the watch lists. -/
  | drawn {watches watches' : WatchTable} {l : Lit} {passed : Trail} {conflict : Option Nat}
      {before after : Workspace σ} :
      Underway p work none ⟨.watchedLiterals, watches, []⟩ before →
      before.trail.nextToPropagate = some (l, passed) →
      WatchedWorkspace.propagateLit ⟨watches, { before with trail := passed }⟩ l =
        .ok (conflict, ⟨watches', after⟩) →
      Underway p work conflict ⟨.watchedLiterals, watches', []⟩ after
  /-- Nothing is propagated any more once a clause has been found falsified. -/
  | skipped {watches : WatchTable} {pending : List Nat} {id : Nat} {before : Workspace σ} :
      Underway p work (some id) ⟨.watchedLiterals, watches, pending⟩ before →
      Underway p work (some id) ⟨.watchedLiterals, watches, pending⟩
        { before with trail := before.trail.skipPropagation }
  /-- A clause of the database has been looked at. -/
  | scanned {watches : WatchTable} {pending : List Nat} {id : Nat} {conflict : Option Nat}
      {before after : Workspace σ} :
      Underway p work none ⟨.rescan, watches, pending⟩ before → id < before.db.size →
      rescanPass [id] before = .ok (conflict, after) →
      Underway p work conflict ⟨.rescan, watches, pending⟩ after

/-- Propagation can go on from here: every clause still pending is forcing. -/
structure Safe (p : Propagator) (work : Workspace σ) : Prop where
  sound : work.Sound
  watchful : p.Watchful work.db work.trail.varCount
  forcing : p.mode = .watchedLiterals → ∀ id ∈ p.pending,
    id < work.db.size ∧ Forcing work.trail.stack (work.db.litsOf id)

/-- What holds at each moment in the course of propagation. -/
structure Midway (p : Propagator) (work : Workspace σ) (p' : Propagator) (work' : Workspace σ) :
    Prop where
  safe : p'.Safe work'
  advanced : work.Advanced work'
  mode_eq : p'.mode = p.mode

section Moments
variable {p p' : Propagator} {work work' : Workspace σ} {conflict : Option Nat}

omit [Tracer σ] in
theorem Ready.safe (ready : p.Ready work.db work.trail) (sound : work.Sound) : p.Safe work :=
  ⟨sound, ready.watchful, fun mode => (ready.primed mode).forcing⟩

/-- Propagation can go on from every moment in the course of it. -/
theorem Underway.midway (underway : Underway p work conflict p' work') (safe : p.Safe work) :
    Midway p work p' work' := by
  induction underway with
  | begun => exact ⟨safe, .refl work, rfl⟩
  | @looked watches id rest conflict before after _ looked ih =>
    obtain ⟨⟨sound, watchful, forcing⟩, advanced, modeEq⟩ := ih
    have result := (settle_yields [id] sound fun other member =>
      forcing rfl other (List.mem_singleton.mp member ▸ List.mem_cons_self ..)).of_eq looked
    refine ⟨⟨result.sound, ?_, fun _ other member => ?_⟩, advanced.trans result.advanced, modeEq⟩
    · rw [result.db_eq, result.advanced.varCount_eq]
      exact ⟨watchful.covers, watchful.watching⟩
    · obtain ⟨inBounds, forced⟩ := forcing rfl other (List.mem_cons_of_mem id member)
      rw [result.db_eq]
      exact ⟨inBounds, forced.mono result.advanced.subset⟩
  | @drawn watches watches' l passed conflict before after _ next drawn ih =>
    obtain ⟨⟨sound, watchful, -⟩, advanced, modeEq⟩ := ih
    obtain ⟨coherent, stackEq, varsEq, -, a, rfl, processedEq⟩ :=
      sound.coherent.nextToPropagate_eq_some next
    obtain ⟨movedSound, moved⟩ := sound.moveCursor coherent stackEq varsEq
    have holds : a.lit.HoldsOn passed.stack :=
      ⟨a, passed.processed_suffix.subset (processedEq ▸ List.mem_cons_self ..), rfl⟩
    have result := (WatchedWorkspace.propagateLit_yields movedSound
      (varsEq.symm ▸ watchful.covers rfl) (watchful.watching rfl) holds).of_eq drawn
    exact ⟨⟨result.followed.sound, ⟨fun _ => result.followed.covers, fun _ => result.watching⟩,
      by simp⟩, (advanced.trans moved).trans result.followed.advanced, modeEq⟩
  | skipped _ ih =>
    obtain ⟨⟨sound, watchful, forcing⟩, advanced, modeEq⟩ := ih
    obtain ⟨skippedSound, skipped⟩ := sound.moveCursor sound.coherent.skipPropagation rfl rfl
    exact ⟨⟨skippedSound, watchful, forcing⟩, advanced.trans skipped, modeEq⟩
  | @scanned watches pending id conflict before after _ inBounds scanned ih =>
    obtain ⟨⟨sound, -, -⟩, advanced, modeEq⟩ := ih
    have result := (rescanPass_yields sound [id] fun other member =>
      List.mem_singleton.mp member ▸ inBounds).of_eq scanned
    exact ⟨⟨result.sound, ⟨by simp, by simp⟩, by simp⟩, advanced.trans result.advanced, modeEq⟩

end Moments

section Result
variable {p : Propagator} {work before after : Workspace σ} {watches watches' : WatchTable}
  {pending left : List Nat} {conflict : Option Nat}

/-- Pending clauses are looked at one after the other. -/
private theorem Underway.settle
    (underway : Underway p work none ⟨.watchedLiterals, watches, pending⟩ before)
    (settled : Propagator.settle pending before = .ok (conflict, left, after)) :
    Underway p work conflict ⟨.watchedLiterals, watches, left⟩ after := by
  induction pending generalizing before with
  | nil =>
    cases settled
    exact underway
  | cons id rest ih =>
    rw [Propagator.settle] at settled
    obtain ⟨status, found, onward⟩ := Checked.bind_eq_ok_iff.mp settled
    cases status with
    | conflicting =>
      cases onward
      exact underway.looked (by simp [Propagator.settle, found, pure, Except.pure])
    | unit l =>
      obtain ⟨middle, implied, onward⟩ := Checked.bind_eq_ok_iff.mp onward
      exact ih (underway.looked (by simp [Propagator.settle, found, implied, pure, Except.pure])) onward
    | satisfied | unresolved =>
      exact ih (underway.looked (by simp [Propagator.settle, found, pure, Except.pure])) onward

/-- Literals of the trail are propagated one after the other. -/
private theorem Underway.drain (steps : Nat)
    (underway : Underway p work none ⟨.watchedLiterals, watches, []⟩ before)
    (drained : WatchedWorkspace.drain steps ⟨watches, before⟩ = .ok (conflict, ⟨watches', after⟩)) :
    Underway p work conflict ⟨.watchedLiterals, watches', []⟩ after := by
  induction steps generalizing watches before with
  | zero => cases drained
  | succ steps ih =>
    rw [WatchedWorkspace.drain] at drained
    cases next : before.trail.nextToPropagate with
    | none =>
      simp only [next] at drained
      cases drained
      exact underway
    | some found =>
      obtain ⟨l, passed⟩ := found
      simp only [next] at drained
      obtain ⟨⟨found, ⟨watches₁, middle⟩⟩, drawn, onward⟩ := Checked.bind_eq_ok_iff.mp drained
      have moment := underway.drawn next drawn
      cases found with
      | none => exact ih moment onward
      | some id =>
        cases onward
        exact moment.skipped

/-- The clauses of a pass are looked at one after the other. -/
private theorem Underway.rescanPass (ids : List Nat) (safe : p.Safe work)
    (inBounds : ∀ id ∈ ids, id < work.db.size)
    (underway : Underway p work none ⟨.rescan, watches, pending⟩ before)
    (scanned : ClauseLearning.rescanPass ids before = .ok (conflict, after)) :
    Underway p work conflict ⟨.rescan, watches, pending⟩ after := by
  induction ids generalizing before with
  | nil =>
    cases scanned
    exact underway
  | cons id rest ih =>
    have here : id < before.db.size := by
      rw [(underway.midway safe).advanced.reordered.size_eq]
      exact inBounds id (List.mem_cons_self ..)
    have later : ∀ other ∈ rest, other < work.db.size :=
      fun other member => inBounds other (List.mem_cons_of_mem id member)
    rw [ClauseLearning.rescanPass] at scanned
    obtain ⟨status, found, onward⟩ := Checked.bind_eq_ok_iff.mp scanned
    cases status with
    | conflicting =>
      cases onward
      exact underway.scanned here (by simp [ClauseLearning.rescanPass, found, pure, Except.pure])
    | unit l =>
      obtain ⟨middle, implied, onward⟩ := Checked.bind_eq_ok_iff.mp onward
      exact ih later (underway.scanned here
        (by simp [ClauseLearning.rescanPass, found, implied, pure, Except.pure])) onward
    | satisfied | unresolved =>
      exact ih later (underway.scanned here
        (by simp [ClauseLearning.rescanPass, found, pure, Except.pure])) onward

private theorem Underway.rescanPasses (passes : Nat) (safe : p.Safe work)
    (underway : Underway p work none ⟨.rescan, watches, pending⟩ before)
    (scanned : ClauseLearning.rescanPasses passes before = .ok (conflict, after)) :
    Underway p work conflict ⟨.rescan, watches, pending⟩ after := by
  induction passes generalizing before with
  | zero => cases scanned
  | succ passes ih =>
    have size := (underway.midway safe).advanced.reordered.size_eq
    rw [ClauseLearning.rescanPasses] at scanned
    obtain ⟨⟨found, middle⟩, pass, onward⟩ := Checked.bind_eq_ok_iff.mp scanned
    have moment := underway.rescanPass before.db.ids safe
      (fun id listed => size ▸ Database.mem_ids_iff.mp listed) pass
    cases found with
    | some id =>
      cases onward
      exact moment
    | none =>
      simp only at onward
      split at onward
      · cases onward
        exact moment
      · exact ih moment onward

/-- What propagation ends in is a moment in the course of it. -/
theorem underway_of_propagate {result : Propagated σ} (safe : p.Safe work)
    (propagated : p.propagate work = .ok result) :
    Underway p work result.conflict result.propagator result.work := by
  obtain ⟨mode, watches, pending⟩ := p
  cases mode with
  | rescan =>
    obtain ⟨⟨conflict, after⟩, scanned, onward⟩ := Checked.bind_eq_ok_iff.mp propagated
    cases onward
    exact Underway.begun.rescanPasses _ safe scanned
  | watchedLiterals =>
    obtain ⟨⟨conflict, left, middle⟩, settled, onward⟩ := Checked.bind_eq_ok_iff.mp propagated
    have moment : Underway ⟨.watchedLiterals, watches, pending⟩ work conflict
        ⟨.watchedLiterals, watches, left⟩ middle := Underway.begun.settle settled
    cases conflict with
    | some id =>
      cases onward
      exact moment.skipped
    | none =>
      obtain rfl := ((settle_yields pending safe.sound (safe.forcing rfl)).of_eq settled).left_eq rfl
      obtain ⟨⟨conflict, ⟨watches', after⟩⟩, drained, onward⟩ := Checked.bind_eq_ok_iff.mp onward
      cases onward
      exact moment.drain _ drained

/-- Unit propagation ends without a fault, and what it ends in is as any moment in the course of it. -/
theorem propagate_yields_midway (sound : work.Sound) (ready : p.Ready work.db work.trail) :
    Yields (p.propagate work) fun result => p.Outcome work result ∧
      Midway p work result.propagator result.work := by
  obtain ⟨result, propagated, outcome⟩ := propagate_yields sound ready
  have safe := ready.safe sound
  exact .intro propagated ⟨outcome, (underway_of_propagate safe propagated).midway safe⟩

end Result

end ClauseLearning.Propagator
