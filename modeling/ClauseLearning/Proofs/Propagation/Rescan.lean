import ClauseLearning.Proofs.Propagation.Workspace
import ClauseLearning.Propagation.Propagator

/-! # Rescanning ends, with every clause settled or one falsified

Clauses are looked at one after the other, be it that they are pending or that all are. A pass over the
clauses either adds to the trail or finds every clause settled. Since the trail cannot get longer than
there are variables, the passes allowed are enough, and the last one settles the whole database unless a
falsified clause ends it before.
-/

namespace ClauseLearning

variable {σ : Type}

/-- What looking at some clauses has come to, from any orderly workspace. -/
structure Considered (work : Workspace σ) (ids : List Nat) (conflict : Option Nat) (left : List Nat)
    (work' : Workspace σ) : Prop where
  orderly : work'.Orderly
  advanced : work.Advanced work'
  db_eq : work'.db = work.db
  cursor_eq : work'.trail.cursor = work.trail.cursor
  grounds : Grounded work.db work.trail.stack → Grounded work'.db work'.trail.stack
  left_suffix : left <:+ ids
  left_eq : conflict = none → left = []
  left_lt : conflict ≠ none → left.length < ids.length
  falsified : ∀ id, conflict = some id → work'.Falsified id
  /-- Clauses with at most one open literal are satisfied by what they force. -/
  met : conflict = none → ∀ id ∈ ids, Forcing work.trail.stack (work.db.litsOf id) →
    work'.db.MetOn id work'.trail.stack
  /-- Clauses passed without any effect are settled. -/
  settled : conflict = none → work'.trail.size = work.trail.size →
    ∀ id ∈ ids, Settled work.trail.stack (work.db.litsOf id)

structure Rescanned (work : Workspace σ) (ids : List Nat) (conflict : Option Nat)
    (work' : Workspace σ) : Prop where
  sound : work'.Sound
  advanced : work.Advanced work'
  db_eq : work'.db = work.db
  falsified : ∀ id, conflict = some id → work'.Falsified id
  /-- Clauses passed without any effect are settled. -/
  settled : conflict = none → work'.trail.size = work.trail.size →
    ∀ id ∈ ids, Settled work.trail.stack (work.db.litsOf id)

/-- What all passes have come to, from any orderly workspace. -/
structure Steady (work : Workspace σ) (conflict : Option Nat) (work' : Workspace σ) : Prop where
  orderly : work'.Orderly
  advanced : work.Advanced work'
  db_eq : work'.db = work.db
  grounds : Grounded work.db work.trail.stack → Grounded work'.db work'.trail.stack
  falsified : ∀ id, conflict = some id → work'.Falsified id
  settled : conflict = none → work'.db.SettledOn work'.trail.stack

structure Saturated (work : Workspace σ) (conflict : Option Nat) (work' : Workspace σ) : Prop where
  sound : work'.Sound
  advanced : work.Advanced work'
  falsified : ∀ id, conflict = some id → work'.Falsified id
  settled : conflict = none → work'.db.SettledOn work'.trail.stack

/-- A clause passed, with or without an effect, comes before those looked at next. -/
private theorem Considered.cons {work middle work' : Workspace σ} {id : Nat} {rest left : List Nat}
    {conflict : Option Nat} (considered : Considered middle rest conflict left work')
    (advanced : work.Advanced middle) (db_eq : middle.db = work.db)
    (cursor_eq : middle.trail.cursor = work.trail.cursor)
    (grounds : Grounded work.db work.trail.stack → Grounded middle.db middle.trail.stack)
    (met : Forcing work.trail.stack (work.db.litsOf id) → middle.db.MetOn id middle.trail.stack)
    (settled : middle.trail.size = work.trail.size → Settled work.trail.stack (work.db.litsOf id)) :
    Considered work (id :: rest) conflict left work' := by
  refine ⟨considered.orderly, advanced.trans considered.advanced, considered.db_eq.trans db_eq,
    considered.cursor_eq.trans cursor_eq, fun grounded => considered.grounds (grounds grounded),
    considered.left_suffix.trans (List.suffix_cons id rest), considered.left_eq,
    fun found => Nat.lt_succ_of_lt (considered.left_lt found), considered.falsified, ?_, ?_⟩
  · intro clear other member forcing
    rcases List.mem_cons.mp member with rfl | member
    · exact considered.advanced.metOn (met forcing)
    · exact considered.met clear other member (db_eq ▸ forcing.mono advanced.subset)
  · intro clear same other member
    have lower := advanced.size_le
    have upper := considered.advanced.size_le
    have unchanged : middle.trail.size = work.trail.size := by omega
    rcases List.mem_cons.mp member with rfl | member
    · exact settled unchanged
    · rw [← db_eq, ← advanced.stack_eq_of_size_eq unchanged]
      exact considered.settled clear (same.trans unchanged.symm) other member

variable [Tracer σ]

/-- Clauses of the database are looked at in turn, up to the first one found falsified. -/
theorem Propagator.settle_tends (ids : List Nat) {work : Workspace σ} (orderly : work.Orderly)
    (inBounds : ∀ id ∈ ids, id < work.db.size) :
    Yields (settle ids work) fun (conflict, left, work') => Considered work ids conflict left work' := by
  induction ids generalizing work with
  | nil =>
    exact yields_pure_iff.mpr ⟨orderly, .refl _, rfl, rfl, id, List.suffix_rfl, by simp, by simp, by simp,
      by simp, by simp⟩
  | cons id rest ih =>
    have here := inBounds id (List.mem_cons_self ..)
    have later : ∀ other ∈ rest, other < work.db.size :=
      fun other member => inBounds other (List.mem_cons_of_mem _ member)
    rw [settle]
    apply (orderly.status_yields here).bind
    intro status describes
    cases status with
    | satisfied =>
      exact (ih orderly later).imp fun _ considered => considered.cons (.refl _) rfl rfl
        (fun grounded => grounded) (fun _ => describes) fun _ => describes.settled_of_satisfied
    | unresolved =>
      have settled := describes.settled_of_unresolved
      exact (ih orderly later).imp fun _ considered => considered.cons (.refl _) rfl rfl
        (fun grounded => grounded) settled.exists_holds fun _ => settled
    | conflicting =>
      refine yields_pure_iff.mpr ⟨orderly, .refl _, rfl, rfl, fun grounded => grounded,
        List.suffix_cons id rest, by simp, by simp, ?_, by simp, by simp⟩
      rintro _ ⟨⟩
      exact ⟨here, describes⟩
    | unit l =>
      obtain ⟨member, isOpen, fails⟩ := describes
      apply (orderly.imply_yields (orderly.wellFormed.inRange id l member) isOpen here).bind
      rintro middle ⟨middleOrderly, advanced, dbEq, stackEq, cursorEq⟩
      apply (ih middleOrderly (dbEq ▸ later)).imp
      rintro ⟨conflict, left, work'⟩ considered
      refine considered.cons advanced dbEq cursorEq (fun grounded => ?_) (fun _ => ?_) fun same => ?_
      · rw [dbEq, stackEq]
        exact grounded.implied _ member fails
      · exact ⟨l, dbEq ▸ member, by simp [stackEq]⟩
      · have longer := congrArg List.length stackEq
        simp only [Trail.length_stack, List.length_cons] at longer
        omega

/-- One pass keeps the workspace sound and stops at the first clause falsified. -/
theorem rescanPass_yields {work : Workspace σ} (sound : work.Sound) (ids : List Nat)
    (inBounds : ∀ id ∈ ids, id < work.db.size) :
    Yields (rescanPass ids work) fun (conflict, work') => Rescanned work ids conflict work' := by
  rw [Propagator.rescanPass_eq_settle]
  apply (Propagator.settle_tends ids sound.orderly inBounds).bind
  rintro ⟨conflict, left, work'⟩ considered
  exact yields_pure_iff.mpr ⟨considered.orderly.sound (considered.grounds sound.grounded),
    considered.advanced, considered.db_eq, considered.falsified, considered.settled⟩

/-- The passes end as long as there are more of them than unassigned variables. -/
theorem rescanPasses_tends {work : Workspace σ} (orderly : work.Orderly) (passes : Nat)
    (enough : work.trail.varCount < passes + work.trail.size) :
    Yields (rescanPasses passes work) fun (conflict, work') => Steady work conflict work' := by
  induction passes generalizing work with
  | zero =>
    have bound := orderly.coherent.size_le
    omega
  | succ passes ih =>
    rw [rescanPasses, Propagator.rescanPass_eq_settle, bind_assoc]
    apply (Propagator.settle_tends work.db.ids orderly fun id => Database.mem_ids_iff.mp).bind
    rintro ⟨conflict, left, middle⟩ considered
    rw [pure_bind]
    cases conflict with
    | some id =>
      exact yields_pure_iff.mpr ⟨considered.orderly, considered.advanced, considered.db_eq,
        considered.grounds, considered.falsified, by simp⟩
    | none =>
      simp only
      split
      · rename_i same
        refine yields_pure_iff.mpr ⟨considered.orderly, considered.advanced, considered.db_eq,
          considered.grounds, considered.falsified, ?_⟩
        intro _ id inBounds
        rw [considered.advanced.stack_eq_of_size_eq same, considered.db_eq]
        exact considered.settled rfl same id (Database.mem_ids_iff.mpr (considered.db_eq ▸ inBounds))
      · rename_i differs
        have shorter := considered.advanced.size_le
        have vars := considered.advanced.varCount_eq
        apply (ih considered.orderly (by omega)).imp
        rintro ⟨conflict, work'⟩ steady
        exact ⟨steady.orderly, considered.advanced.trans steady.advanced,
          steady.db_eq.trans considered.db_eq, fun grounded => steady.grounds (considered.grounds grounded),
          steady.falsified, steady.settled⟩

/-- Rescanning ends with every clause settled, unless it finds one falsified. -/
theorem rescan_yields {work : Workspace σ} (sound : work.Sound) :
    Yields (rescan work) fun (conflict, work') => Saturated work conflict work' :=
  (rescanPasses_tends sound.orderly _ (by omega)).imp fun _ steady =>
    ⟨steady.orderly.sound (steady.grounds sound.grounded), steady.advanced, steady.falsified,
      steady.settled⟩

end ClauseLearning
