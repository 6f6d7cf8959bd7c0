import ClauseLearning.Proofs.Propagation.Drain
import ClauseLearning.Proofs.Propagation.Rescan
import ClauseLearning.Propagation.Propagator

/-! # Unit propagation in either form

Between calls the bookkeeping of propagation is quiet: nothing is pending, and every level below a
bound is closed, that is, all clauses are settled on what the stack was when the level ended. A
decision or a learned clause makes it ready for the next call, which either closes the current level,
too, or finds a falsified clause and leaves the levels below closed.
-/

namespace ClauseLearning

variable {σ : Type}

structure WatchTable.GuardsBelow (watches : WatchTable) (db : Database) (t : Trail) (bound : Nat) :
    Prop where
  covers : watches.Covers t.varCount
  watching : Watching db watches.listOf
  guarded : ∀ k < bound, db.GuardedOn [] (cut k t.stack) (cut k t.stack)

/-- The watch lists, if propagation follows any, are right. -/
structure Propagator.Watchful (p : Propagator) (db : Database) (vars : Nat) : Prop where
  covers : p.mode = .watchedLiterals → p.watches.Covers vars
  watching : p.mode = .watchedLiterals → Watching db p.watches.listOf

/-- The part of a quiet propagator that is particular to watch lists. -/
structure Propagator.Idle (p : Propagator) (db : Database) (t : Trail) (bound : Nat) : Prop where
  guards : p.watches.GuardsBelow db t bound
  units : ∀ id l, db.litsOf id = [l] → l.HoldsOn (cut 0 t.stack)
  pending_eq : p.pending = []
  ended : t.cursor = t.size

/-- Nothing is left to propagate below the bound, and nothing is pending. -/
structure Propagator.Quiet (p : Propagator) (db : Database) (t : Trail) (bound : Nat) : Prop where
  settled : ∀ k < bound, db.SettledOn (cut k t.stack)
  idle : p.mode = .watchedLiterals → p.Idle db t bound

/-- The part of a ready propagator that is particular to watch lists. -/
structure Propagator.Primed (p : Propagator) (db : Database) (t : Trail) : Prop where
  guards : p.watches.GuardsBelow db t (height t.stack)
  passed : db.GuardedOn p.pending t.processed t.stack
  units : ∀ id l, db.litsOf id = [l] →
    (id ∈ p.pending ∧ height t.stack = 0) ∨ l.HoldsOn (cut 0 t.stack)
  forcing : ∀ id ∈ p.pending, id < db.size ∧ Forcing t.stack (db.litsOf id)
  /-- Above level zero a single clause can be pending, the one just learned. -/
  lone : 0 < height t.stack → p.pending.length ≤ 1

/-- Propagation may begin: the levels below the current one are closed. -/
structure Propagator.Ready (p : Propagator) (db : Database) (t : Trail) : Prop where
  settled : ∀ k < height t.stack, db.SettledOn (cut k t.stack)
  primed : p.mode = .watchedLiterals → p.Primed db t

structure Propagator.Outcome (p : Propagator) (work : Workspace σ) (result : Propagated σ) : Prop where
  sound : result.work.Sound
  advanced : work.Advanced result.work
  mode_eq : result.propagator.mode = p.mode
  /-- Without a conflict the current level is closed, too. -/
  closed : result.conflict = none →
    result.propagator.Quiet result.work.db result.work.trail (height work.trail.stack + 1)
  falsified : ∀ id, result.conflict = some id → result.work.Falsified id
  /-- After a conflict above level zero the levels below are closed still. -/
  broken : result.conflict ≠ none → 0 < height work.trail.stack →
    result.propagator.Quiet result.work.db result.work.trail (height work.trail.stack)

theorem Propagator.Ready.watchful {p : Propagator} {db : Database} {t : Trail}
    (ready : p.Ready db t) : p.Watchful db t.varCount :=
  ⟨fun mode => (ready.primed mode).guards.covers, fun mode => (ready.primed mode).guards.watching⟩

/-- A longer stack has longer cuts. -/
theorem Workspace.Advanced.cut_subset {work work' : Workspace σ} (advanced : work.Advanced work')
    (stacked : Stacked work.trail.stack) (stacked' : Stacked work'.trail.stack) (k : Nat) :
    cut k work.trail.stack ⊆ cut k work'.trail.stack := by
  intro a member
  obtain ⟨listed, within⟩ := stacked.mem_cut_iff.mp member
  exact stacked'.mem_cut_iff.mpr ⟨advanced.subset listed, within⟩

/-- Closed levels stay closed while propagation works on the current one. -/
theorem Workspace.Advanced.settledOn_cut {work work' : Workspace σ} (advanced : work.Advanced work')
    {k : Nat} (below : k < height work.trail.stack)
    (settled : work.db.SettledOn (cut k work.trail.stack)) :
    work'.db.SettledOn (cut k work'.trail.stack) := by
  rw [advanced.cut_eq below]
  exact advanced.reordered.settledOn settled

/-- Guarded levels stay guarded while watch lists are followed on the current one. -/
theorem WatchedWorkspace.Followed.guarded_cut {state state' : WatchedWorkspace σ}
    (followed : state.Followed state') {k : Nat} (below : k < height state.work.trail.stack)
    (guarded : state.work.db.GuardedOn [] (cut k state.work.trail.stack)
      (cut k state.work.trail.stack)) :
    state'.work.db.GuardedOn [] (cut k state'.work.trail.stack) (cut k state'.work.trail.stack) := by
  rw [followed.advanced.cut_eq below]
  exact guarded.rewatched followed.advanced.reordered followed.rewatched (cut_subset _ _)
    (List.Subset.refl _)

/-- The levels up to the current one are those below it and the current one. -/
private theorem Workspace.Advanced.settledOn_cut_of_le {work work' : Workspace σ}
    (advanced : work.Advanced work') (stacked : Stacked work'.trail.stack)
    (lower : ∀ k < height work.trail.stack, work.db.SettledOn (cut k work.trail.stack))
    (current : work'.db.SettledOn work'.trail.stack) {k : Nat}
    (within : k < height work.trail.stack + 1) : work'.db.SettledOn (cut k work'.trail.stack) := by
  rcases Nat.lt_succ_iff_lt_or_eq.mp within with below | rfl
  · exact advanced.settledOn_cut below (lower k below)
  · rw [stacked.cut_eq_self (Nat.le_of_eq advanced.height_eq)]
    exact current

/-- Clauses of one literal hold at level zero once none is pending any more. -/
private theorem Propagator.Primed.units_hold {p : Propagator} {work work' : Workspace σ}
    (primed : p.Primed work.db work.trail) (sound : work.Sound) (advanced : work.Advanced work')
    (stacked : Stacked work'.trail.stack)
    (met : ∀ id ∈ p.pending, work'.db.MetOn id work'.trail.stack) :
    ∀ id l, work'.db.litsOf id = [l] → l.HoldsOn (cut 0 work'.trail.stack) := by
  intro id l single
  have before : work.db.litsOf id = [l] :=
    List.perm_singleton.mp (single ▸ advanced.reordered.perm id).symm
  rcases primed.units id l before with ⟨listed, bottom⟩ | holds
  · obtain ⟨other, member, holds⟩ := met id listed
    rw [single, List.mem_singleton] at member
    rw [stacked.cut_eq_self (Nat.le_of_eq (advanced.height_eq.trans bottom)), ← member]
    exact holds
  · exact holds.mono (advanced.cut_subset sound.coherent.stacked stacked 0)

namespace Propagator

structure SettledPending (work : Workspace σ) (pending : List Nat) (conflict : Option Nat)
    (left : List Nat) (work' : Workspace σ) : Prop where
  sound : work'.Sound
  advanced : work.Advanced work'
  db_eq : work'.db = work.db
  cursor_eq : work'.trail.cursor = work.trail.cursor
  met : conflict = none → ∀ id ∈ pending, work'.db.MetOn id work'.trail.stack
  left_eq : conflict = none → left = []
  falsified : ∀ id, conflict = some id → work'.Falsified id
  left_lt : conflict ≠ none → left.length < pending.length

namespace SettledPending
variable {watches watches' : WatchTable} {pending left : List Nat} {work middle work' : Workspace σ}
  {conflict : Option Nat} {id : Nat}

/-- A pending clause found falsified ends propagation, with the levels below closed as before. -/
private theorem outcome_of_falsified
    (settled : SettledPending work pending (some id) left middle)
    (ready : Ready ⟨.watchedLiterals, watches, pending⟩ work.db work.trail) :
    Outcome ⟨.watchedLiterals, watches, pending⟩ work
      ⟨some id, ⟨.watchedLiterals, watches, left⟩,
        { middle with trail := middle.trail.skipPropagation }⟩ := by
  have primed := ready.primed rfl
  obtain ⟨covers, watching, guarded⟩ := primed.guards
  obtain ⟨skippedSound, skipped⟩ :=
    settled.sound.moveCursor settled.sound.coherent.skipPropagation rfl rfl
  have advanced := settled.advanced.trans skipped
  obtain ⟨inBounds, fails⟩ := settled.falsified id rfl
  refine ⟨skippedSound, advanced, rfl, by simp, ?_, ?_⟩
  · rintro _ ⟨⟩
    exact ⟨inBounds, fails⟩
  · intro _ above
    refine ⟨fun k below => advanced.settledOn_cut below (ready.settled k below), fun _ => ?_⟩
    refine ⟨⟨settled.advanced.varCount_eq ▸ covers, settled.db_eq ▸ watching, ?_⟩, ?_, ?_, rfl⟩
    · intro k below
      simp only [advanced.cut_eq below, settled.db_eq]
      exact guarded k below
    · intro id l single
      simp only [settled.db_eq] at single
      rcases primed.units id l single with ⟨-, bottom⟩ | holds
      · omega
      · simp only [advanced.cut_eq above]
        exact holds
    · have shorter := settled.left_lt (by simp)
      have few : pending.length ≤ 1 := primed.lone above
      have empty : left.length = 0 := by omega
      exact List.eq_nil_of_length_eq_zero empty

/-- Once no clause is pending any more, every assignment that the cursor has passed is guarded. -/
private theorem guardedOn_processed (settled : SettledPending work pending none left middle)
    (sound : work.Sound) (primed : Primed ⟨.watchedLiterals, watches, pending⟩ work.db work.trail) :
    middle.db.GuardedOn [] middle.trail.processed middle.trail.stack := by
  obtain ⟨added, grown, -⟩ := settled.advanced.grown
  intro id l watches fails
  rw [sound.coherent.processed_eq grown settled.cursor_eq] at fails
  rcases primed.passed id l (settled.db_eq ▸ watches) fails with listed | met
  · exact .inr (settled.met rfl id listed)
  · exact .inr (settled.advanced.metOn met)

/-- Following the watch lists to the end closes the current level, unless a clause is falsified. -/
private theorem outcome_of_drained
    (settled : SettledPending work pending none left middle) (sound : work.Sound)
    (ready : Ready ⟨.watchedLiterals, watches, pending⟩ work.db work.trail)
    (drained : WatchedWorkspace.Drained ⟨watches, middle⟩ conflict ⟨watches', work'⟩) :
    Outcome ⟨.watchedLiterals, watches, pending⟩ work
      ⟨conflict, ⟨.watchedLiterals, watches', []⟩, work'⟩ := by
  have primed := ready.primed rfl
  have followed := drained.followed
  have advanced := settled.advanced.trans followed.advanced
  have stacked' := followed.sound.coherent.stacked
  have units := primed.units_hold sound advanced stacked'
    fun id listed => followed.advanced.metOn (settled.met rfl id listed)
  have guarded : ∀ k < height work.trail.stack,
      work'.db.GuardedOn [] (cut k work'.trail.stack) (cut k work'.trail.stack) := by
    intro k below
    have heights : height middle.trail.stack = height work.trail.stack :=
      settled.advanced.height_eq
    apply followed.guarded_cut (heights.symm ▸ below)
    simp only [settled.advanced.cut_eq below, settled.db_eq]
    exact primed.guards.guarded k below
  refine ⟨followed.sound, advanced, rfl, ?_, drained.falsified, ?_⟩
  · intro clear
    have whole := drained.guarded clear
    have current : work'.db.SettledOn work'.trail.stack :=
      whole.settledOn followed.sound.wellFormed fun id l single =>
        (units id l single).mono (cut_subset _ _)
    refine ⟨fun k within => advanced.settledOn_cut_of_le stacked' ready.settled current within,
      fun _ => ⟨⟨followed.covers, drained.watching, ?_⟩, units, rfl, drained.ended⟩⟩
    intro k within
    rcases Nat.lt_succ_iff_lt_or_eq.mp within with below | rfl
    · exact guarded k below
    · rw [stacked'.cut_eq_self (Nat.le_of_eq advanced.height_eq)]
      exact whole
  · intro _ _
    exact ⟨fun k below => advanced.settledOn_cut below (ready.settled k below),
      fun _ => ⟨⟨followed.covers, drained.watching, guarded⟩, units, rfl, drained.ended⟩⟩

end SettledPending

variable [Tracer σ]

/-- Pending clauses are satisfied in turn, up to the first one found falsified. -/
theorem settle_yields (pending : List Nat) {work : Workspace σ} (sound : work.Sound)
    (forcing : ∀ id ∈ pending, id < work.db.size ∧ Forcing work.trail.stack (work.db.litsOf id)) :
    Yields (settle pending work) fun (conflict, left, work') =>
      SettledPending work pending conflict left work' := by
  apply (settle_tends pending sound.orderly fun id member => (forcing id member).1).imp
  rintro ⟨conflict, left, work'⟩ considered
  exact ⟨considered.orderly.sound (considered.grounds sound.grounded), considered.advanced,
    considered.db_eq, considered.cursor_eq,
    fun clear id member => considered.met clear id member (forcing id member).2, considered.left_eq,
    considered.falsified, considered.left_lt⟩

/-- Rescanning closes the current level or finds a falsified clause. -/
private theorem propagate_rescan_yields {watches : WatchTable} {pending : List Nat}
    {work : Workspace σ} (sound : work.Sound)
    (ready : Ready ⟨.rescan, watches, pending⟩ work.db work.trail) :
    Yields (propagate ⟨.rescan, watches, pending⟩ work)
      (Outcome ⟨.rescan, watches, pending⟩ work) := by
  rw [propagate]
  apply (rescan_yields sound).bind
  rintro ⟨conflict, work'⟩ ⟨sound', advanced, falsified, settled⟩
  refine yields_pure_iff.mpr ⟨sound', advanced, rfl, ?_, falsified, ?_⟩
  · intro clear
    refine ⟨fun k within => ?_, by simp⟩
    exact advanced.settledOn_cut_of_le sound'.coherent.stacked ready.settled (settled clear) within
  · intro _ _
    exact ⟨fun k below => advanced.settledOn_cut below (ready.settled k below), by simp⟩

/-- Following the watch lists closes the current level or finds a falsified clause. -/
private theorem propagate_watched_yields {watches : WatchTable} {pending : List Nat}
    {work : Workspace σ} (sound : work.Sound)
    (ready : Ready ⟨.watchedLiterals, watches, pending⟩ work.db work.trail) :
    Yields (propagate ⟨.watchedLiterals, watches, pending⟩ work)
      (Outcome ⟨.watchedLiterals, watches, pending⟩ work) := by
  have primed := ready.primed rfl
  obtain ⟨covers, watching, -⟩ := primed.guards
  rw [propagate]
  apply (settle_yields pending sound primed.forcing).bind
  rintro ⟨conflict, left, middle⟩ settled
  have middleCovers : watches.Covers middle.trail.varCount := settled.advanced.varCount_eq ▸ covers
  cases conflict with
  | some id => exact yields_pure_iff.mpr (settled.outcome_of_falsified ready)
  | none =>
    obtain rfl := settled.left_eq rfl
    refine Yields.bind (WatchedWorkspace.drain_yields (middle.trail.varCount + 1) settled.sound
      middleCovers (settled.db_eq ▸ watching) (settled.guardedOn_processed sound primed)
      (by simp only; omega)) ?_
    rintro ⟨conflict, ⟨watches', work'⟩⟩ drained
    exact yields_pure_iff.mpr (settled.outcome_of_drained sound ready drained)

/-- Unit propagation ends without a fault, and closes the current level unless it finds a falsified
clause. -/
theorem propagate_yields {p : Propagator} {work : Workspace σ} (sound : work.Sound)
    (ready : p.Ready work.db work.trail) : Yields (p.propagate work) (p.Outcome work) := by
  obtain ⟨mode, watches, pending⟩ := p
  cases mode with
  | rescan => exact propagate_rescan_yields sound ready
  | watchedLiterals => exact propagate_watched_yields sound ready

end Propagator

end ClauseLearning
