import ClauseLearning.Proofs.Clauses.Addition

/-! # Implied literals have their reasons below them

The implication graph is not stored: an implied literal names the clause that forced it. A stack is
`Grounded` in a database if that clause contains the literal and all its other literals fail below
it. Nothing but the sets of literals of clauses matters, so a grounded stack stays grounded when
clauses are reordered or added and when the search goes back. What is grounded at level zero holds
in every model.
-/

namespace ClauseLearning

/-- The clause that forced a literal contains it, and its other literals fail below. -/
def Supported (db : Database) (below : List Assignment) (a : Assignment) : Prop :=
  ∀ id, a.reason = .implied id →
    a.lit ∈ db.litsOf id ∧ ∀ l ∈ db.litsOf id, l ≠ a.lit → l.FailsOn below

instance (db : Database) (below : List Assignment) (a : Assignment) : Decidable (Supported db below a) :=
  match reason : a.reason with
  | .decision => isTrue fun id implied => by rw [reason] at implied; cases implied
  | .implied id =>
    decidable_of_iff (a.lit ∈ db.litsOf id ∧ ∀ l ∈ db.litsOf id, l ≠ a.lit → l.FailsOn below) <| by
      simp only [Supported, reason, Reason.implied.injEq, forall_eq']

/-- Every implied literal of the stack is supported by what lies below it. -/
def Grounded (db : Database) : List Assignment → Prop
  | [] => True
  | a :: below => Supported db below a ∧ Grounded db below

instance (db : Database) : (stack : List Assignment) → Decidable (Grounded db stack)
  | [] => isTrue trivial
  | a :: below =>
    have := instDecidableGrounded db below
    inferInstanceAs (Decidable (Supported db below a ∧ Grounded db below))

section Grounded
variable {db db' : Database} {stack below : List Assignment} {a : Assignment} {lits : List Lit}

theorem Grounded.suffix (grounded : Grounded db stack) (suffix : below <:+ stack) :
    Grounded db below := by
  obtain ⟨above, rfl⟩ := suffix
  induction above with
  | nil => exact grounded
  | cons a above ih => exact ih grounded.2

/-- The clause that forced a literal of the stack contains it. -/
theorem Grounded.mem_litsOf (grounded : Grounded db stack) (member : a ∈ stack) {id : Nat}
    (reason : a.reason = .implied id) : a.lit ∈ db.litsOf id := by
  obtain ⟨below, suffix⟩ := exists_suffix_of_mem member
  exact ((grounded.suffix suffix).1 id reason).1

theorem Grounded.reordered (grounded : Grounded db stack) (reordered : db.Reordered db') :
    Grounded db' stack := by
  induction stack with
  | nil => trivial
  | cons a below ih =>
    refine ⟨?_, ih grounded.2⟩
    intro id reason
    obtain ⟨member, fails⟩ := grounded.1 id reason
    exact ⟨reordered.mem_iff.mpr member, fun l listed => fails l (reordered.mem_iff.mp listed)⟩

theorem Grounded.extended (grounded : Grounded db stack) (extended : db.Extended lits db') :
    Grounded db' stack := by
  induction stack with
  | nil => trivial
  | cons a below ih =>
    refine ⟨?_, ih grounded.2⟩
    intro id reason
    have support := grounded.1 id reason
    rw [extended.litsOf_of_lt (Database.lt_size_of_mem support.1)]
    exact support

/-- A decision needs no support. -/
theorem supported_decision (db : Database) (below : List Assignment)
    (decision : a.reason = .decision) : Supported db below a := by
  intro id reason
  rw [decision] at reason
  cases reason

/-- A clause whose other literals fail supports its last one. -/
theorem Grounded.implied (grounded : Grounded db stack) {l : Lit} {id : Nat} (level : Nat)
    (member : l ∈ db.litsOf id) (fails : ∀ other ∈ db.litsOf id, other ≠ l → other.FailsOn stack) :
    Grounded db (⟨l, level, .implied id⟩ :: stack) := by
  refine ⟨?_, grounded⟩
  intro other reason
  obtain rfl := Reason.implied.inj reason
  exact ⟨member, fails⟩

/-- Every assignment satisfying the database makes true what was implied without any decision. -/
theorem Grounded.isTrue_of_level_zero (grounded : Grounded db stack) (stacked : Stacked stack)
    {assignment : Nat → Bool} (satisfied : db.SatisfiedBy assignment) (member : a ∈ stack)
    (level : a.level = 0) : a.lit.isTrue assignment = true := by
  induction stack generalizing a with
  | nil => cases member
  | cons b below ih =>
    have earlier : ∀ c ∈ below, c.level = 0 → c.lit.isTrue assignment = true :=
      fun c => ih grounded.2 stacked.tail
    rcases List.mem_cons.mp member with rfl | member
    · have levelEq := stacked.level_eq
      cases reason : a.reason with
      | decision =>
        simp only [reason, nextLevel] at levelEq
        omega
      | implied id =>
        simp only [reason, nextLevel] at levelEq
        obtain ⟨listed, fails⟩ := grounded.1 id reason
        have clause := Database.satisfiedBy_iff.mp satisfied id (Database.lt_size_of_mem listed)
        obtain ⟨l, listed', true⟩ := clause
        by_contra notTrue
        have differs : l ≠ a.lit := by
          rintro rfl
          exact notTrue true
        -- The other literals fail through assignments of level zero, which hold by induction.
        obtain ⟨c, under, negated⟩ := fails l listed' differs
        have bottom := stacked.tail.level_le_height under
        have forced := earlier c under (by omega)
        rw [negated, Lit.isTrue_negate, true] at forced
        cases forced
    · exact earlier a member level

end Grounded

end ClauseLearning
