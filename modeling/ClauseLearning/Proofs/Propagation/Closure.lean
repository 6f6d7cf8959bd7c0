import ClauseLearning.Proofs.Propagation.Propagator

/-! # Unit propagation computes a closure

What the clauses force from a stack is defined without reference to any order of propagation: a literal
is forced if it holds already, or if it is in a clause all of whose other literals are forced to fail.
Propagation in either form adds forced literals only, and stops once no clause is left to force one or
at a clause that is forced to fail. So it ends in a conflict exactly if some clause is forced to fail,
and otherwise with exactly the forced literals, whichever clauses it came to first.
-/

namespace ClauseLearning

/-- The clauses force the literal from the stack, by unit propagation. -/
inductive Database.Forces (db : Database) (stack : List Assignment) : Lit → Prop
  | held {l : Lit} : l.HoldsOn stack → db.Forces stack l
  | unit {id : Nat} {l : Lit} : l ∈ db.litsOf id →
      (∀ other ∈ db.litsOf id, other ≠ l → db.Forces stack other.negate) → db.Forces stack l

/-- Unit propagation forces all literals of some clause to fail. -/
def Database.Refutes (db : Database) (stack : List Assignment) : Prop :=
  ∃ id < db.size, ∀ l ∈ db.litsOf id, db.Forces stack l.negate

section Forces
variable {db db' : Database} {stack stack' added : List Assignment} {l : Lit}

theorem Database.Forces.reordered (forces : db.Forces stack l) (reordered : db.Reordered db') :
    db'.Forces stack l := by
  induction forces with
  | held holds => exact .held holds
  | unit member _ ih =>
    exact .unit (reordered.mem_iff.mpr member) fun other listed =>
      ih other (reordered.mem_iff.mp listed)

theorem Database.Reordered.forces_iff (reordered : db.Reordered db') :
    db'.Forces stack l ↔ db.Forces stack l :=
  ⟨fun forces => forces.reordered reordered.symm, fun forces => forces.reordered reordered⟩

theorem Database.Reordered.refutes_iff (reordered : db.Reordered db') :
    db'.Refutes stack ↔ db.Refutes stack := by
  simp only [Database.Refutes, reordered.size_eq, reordered.mem_iff, reordered.forces_iff]

/-- What is implied on top of a stack, with its reasons below it, is forced from the stack. -/
theorem Grounded.forces (grounded : Grounded db (added ++ stack))
    (implied : ∀ a ∈ added, a.isDecision = false) (holds : l.HoldsOn (added ++ stack)) :
    db.Forces stack l := by
  induction added generalizing l with
  | nil => exact .held holds
  | cons a added ih =>
    have below : ∀ {other : Lit}, other.HoldsOn (added ++ stack) → db.Forces stack other :=
      ih grounded.2 fun b member => implied b (List.mem_cons_of_mem a member)
    rcases holdsOn_cons_iff.mp holds with rfl | holds
    · cases reason : a.reason with
      | decision =>
        have notDecision := implied a (List.mem_cons_self ..)
        simp [Assignment.isDecision, reason] at notDecision
      | implied id =>
        obtain ⟨member, fails⟩ := grounded.1 id reason
        exact .unit member fun other listed differs => below (fails other listed differs)
    · exact below holds

/-- Where all clauses are settled, whatever is forced from a part of the stack holds. -/
theorem Database.Forces.holdsOn (forces : db.Forces stack l) (settled : db.SettledOn stack')
    (stacked : Stacked stack') (included : stack ⊆ stack') : l.HoldsOn stack' := by
  induction forces with
  | held holds => exact holds.mono included
  | @unit id l member _ fails =>
    have here := settled id (Database.lt_size_of_mem member)
    obtain ⟨other, listed, holds⟩ := here.exists_holds ⟨l, fails⟩
    by_cases same : other = l
    · exact same ▸ holds
    · exact (stacked.not_fails_of_holds holds (fails other listed same)).elim

end Forces

/-- What propagation has found and left is the closure of what was there. -/
structure Closes {σ : Type} (work : Workspace σ) (conflict : Option Nat) (work' : Workspace σ) :
    Prop where
  refutes_iff : work.db.Refutes work.trail.stack ↔ conflict ≠ none
  falsified : ∀ id, conflict = some id → work'.Falsified id
  holdsOn_iff : conflict = none → ∀ l,
    l.HoldsOn work'.trail.stack ↔ work.db.Forces work.trail.stack l

section Closes
variable {σ : Type} {work work' : Workspace σ} {conflict : Option Nat}

/-- Once all clauses are settled, or one is falsified, propagation has computed the closure. -/
theorem Saturated.closes (saturated : Saturated work conflict work') : Closes work conflict work' := by
  obtain ⟨sound, advanced, falsified, settled⟩ := saturated
  obtain ⟨added, grown, level⟩ := advanced.grown
  have stacked := sound.coherent.stacked
  have forces : ∀ l : Lit, l.HoldsOn work'.trail.stack → work.db.Forces work.trail.stack l := by
    intro l holds
    have grounded := sound.grounded
    rw [grown] at grounded holds
    exact advanced.reordered.forces_iff.mp
      (grounded.forces (fun a member => (level a member).2) holds)
  have holds : conflict = none → ∀ l : Lit, work.db.Forces work.trail.stack l →
      l.HoldsOn work'.trail.stack := fun clear l forced =>
    (advanced.reordered.forces_iff.mpr forced).holdsOn (settled clear) stacked advanced.subset
  refine ⟨⟨?_, ?_⟩, falsified, fun clear l => ⟨forces l, holds clear l⟩⟩
  · rintro ⟨id, inBounds, fails⟩ clear
    have here := settled clear id (advanced.reordered.size_eq.symm ▸ inBounds)
    refine here.not_conflicting stacked fun l member => ?_
    exact holds clear l.negate (fails l (advanced.reordered.mem_iff.mp member))
  · intro found
    obtain ⟨id, same⟩ := Option.ne_none_iff_exists'.mp found
    obtain ⟨inBounds, fails⟩ := falsified id same
    refine ⟨id, advanced.reordered.size_eq ▸ inBounds, fun l member => ?_⟩
    exact forces l.negate (fails l (advanced.reordered.mem_iff.mpr member))

/-- Propagation in either form ends with all clauses settled or one falsified. -/
theorem Propagator.Outcome.saturated {p : Propagator} {result : Propagated σ}
    (outcome : p.Outcome work result) : Saturated work result.conflict result.work := by
  refine ⟨outcome.sound, outcome.advanced, outcome.falsified, fun clear => ?_⟩
  have settled := (outcome.closed clear).settled (height work.trail.stack) (Nat.lt_succ_self _)
  rwa [outcome.sound.coherent.stacked.cut_eq_self (Nat.le_of_eq outcome.advanced.height_eq)] at settled

end Closes

end ClauseLearning
