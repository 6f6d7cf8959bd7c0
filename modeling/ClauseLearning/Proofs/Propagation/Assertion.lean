import ClauseLearning.Proofs.Propagation.Underway

/-! # What propagation does first when one clause is forcing

If all clauses but one are satisfied or unresolved, propagation has nothing to begin with but the literal
that this one forces. Along watch lists it is reached because it is the pending one, and by rescanning
because every clause looked at before it is passed over. Up to then nothing changes, and from then on the
literal stands on the trail right above what was there before.
-/

namespace ClauseLearning

variable {σ : Type}

/-- The assignment comes right after the entries of the one trail on the other. -/
def Trail.ContinuedBy (t : Trail) (a : Assignment) (t' : Trail) : Prop :=
  t.entries.toList ++ [a] <+: t'.entries.toList

theorem Trail.continuedBy_iff {t t' : Trail} {a : Assignment} :
    t.ContinuedBy a t' ↔ a :: t.stack <:+ t'.stack := by
  rw [ContinuedBy, ← List.reverse_suffix, List.reverse_append, stack, stack]
  rfl

namespace Propagator

/-- One clause forces a literal while all others are satisfied or unresolved, and no other clause is
pending. -/
structure Sole (p : Propagator) (work : Workspace σ) (id : Nat) (l : Lit) : Prop where
  inBounds : id < work.db.size
  unit : work.status id = .ok (.unit l)
  others : ∀ other < work.db.size, other ≠ id →
    work.status other = .ok .satisfied ∨ work.status other = .ok .unresolved
  pending_eq : p.mode = .watchedLiterals → p.pending = [id]

variable [Tracer σ] {p p' q q' : Propagator} {work before after work' : Workspace σ} {id : Nat} {l : Lit}
  {a : Assignment} {conflict found : Option Nat}

/-- The literal that the clause forces goes right on top of the trail. -/
private theorem Sole.continuedBy (sole : p.Sole work id l) (sound : work.Sound)
    (implied : work.imply l id = .ok after) :
    work.trail.ContinuedBy ⟨l, height work.trail.stack, .implied id⟩ after.trail := by
  obtain ⟨member, isOpen, fails⟩ := (sound.status_yields sole.inBounds).of_eq sole.unit
  have result := (sound.imply_yields member isOpen fails).of_eq implied
  exact Trail.continuedBy_iff.mpr ⟨[], result.stack_eq.symm⟩

/-- What has been put on the trail stays there in the course of propagation. -/
private theorem Underway.continuedBy (safe : p.Safe work) (moment : Underway p work found q before)
    (step : Underway q before conflict q' after) (continued : work.trail.ContinuedBy a before.trail) :
    work.trail.ContinuedBy a after.trail := by
  have advanced := (step.midway (moment.midway safe).safe).advanced
  rw [Trail.continuedBy_iff] at continued ⊢
  exact continued.trans advanced.suffix

/-- Up to the forced literal nothing changes, at whatever moment one looks. -/
theorem Underway.unchanged_or_continuedBy (underway : Underway p work conflict p' work')
    (safe : p.Safe work) (sole : p.Sole work id l) :
    (conflict = none ∧ p' = p ∧ work' = work) ∨
      work.trail.ContinuedBy ⟨l, height work.trail.stack, .implied id⟩ work'.trail := by
  induction underway with
  | begun => exact .inl ⟨rfl, rfl, rfl⟩
  | @looked watches other rest conflict before after moment looked ih =>
    rcases ih with ⟨-, rfl, rfl⟩ | continued
    · obtain ⟨rfl, rfl⟩ : other = id ∧ rest = [] := by simpa using sole.pending_eq rfl
      rw [Propagator.settle, sole.unit, ok_bind] at looked
      obtain ⟨middle, implied, same⟩ := Checked.bind_eq_ok_iff.mp looked
      cases same
      exact .inr (sole.continuedBy safe.sound implied)
    · exact .inr (moment.continuedBy safe (.looked .begun looked) continued)
  | drawn moment next drawn ih =>
    rcases ih with ⟨-, rfl, rfl⟩ | continued
    · cases sole.pending_eq rfl
    · exact .inr (moment.continuedBy safe (.drawn .begun next drawn) continued)
  | skipped _ ih =>
    rcases ih with ⟨clear, -, -⟩ | continued
    · cases clear
    · exact .inr continued
  | @scanned watches pending other conflict before after moment inBounds scanned ih =>
    rcases ih with ⟨-, rfl, rfl⟩ | continued
    · rw [ClauseLearning.rescanPass] at scanned
      by_cases same : other = id
      · subst same
        rw [sole.unit, ok_bind] at scanned
        obtain ⟨middle, implied, same⟩ := Checked.bind_eq_ok_iff.mp scanned
        cases same
        exact .inr (sole.continuedBy safe.sound implied)
      · rcases sole.others other inBounds same with status | status
        all_goals
          rw [status, ok_bind] at scanned
          cases scanned
          exact .inl ⟨rfl, rfl, rfl⟩
    · exact .inr (moment.continuedBy safe (.scanned .begun inBounds scanned) continued)

/-- Propagation ends with the forced literal on the trail. -/
theorem propagate_yields_continuedBy (sound : work.Sound) (ready : p.Ready work.db work.trail)
    (sole : p.Sole work id l) :
    Yields (p.propagate work) fun result =>
      Underway p work result.conflict result.propagator result.work ∧
        work.trail.ContinuedBy ⟨l, height work.trail.stack, .implied id⟩ result.work.trail := by
  have safe := ready.safe sound
  obtain ⟨⟨conflict, p', work'⟩, propagated, outcome⟩ := propagate_yields sound ready
  have underway := underway_of_propagate safe propagated
  refine .intro propagated ⟨underway, ?_⟩
  refine (underway.unchanged_or_continuedBy safe sole).resolve_left ?_
  rintro ⟨clear, rfl, same⟩
  -- Without a conflict all clauses are settled in the end, and this one is not yet.
  obtain rfl : work' = work := same
  have stacked := sound.coherent.stacked
  have settled := (outcome.closed clear).settled (height work'.trail.stack) (Nat.lt_succ_self _)
  rw [stacked.cut_eq_self (Nat.le_refl _)] at settled
  obtain ⟨-, isOpen, fails⟩ := (sound.status_yields sole.inBounds).of_eq sole.unit
  exact (settled id sole.inBounds).not_unit stacked isOpen fails

end Propagator

end ClauseLearning
