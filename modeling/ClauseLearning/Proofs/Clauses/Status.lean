import ClauseLearning.Proofs.Trail.Operations
import ClauseLearning.Status

/-! # What the status of a clause says

The scan of a clause reports how many of its literals hold, fail or are open. `Describes` is what
each status means on a stack, in terms of the set of literals alone. A clause is `Settled` if it
neither fails nor forces anything: one of its literals holds, or two are open.
-/

namespace ClauseLearning

/-- Some literal holds, or two are open: the clause neither fails nor forces a literal. -/
def Settled (stack : List Assignment) (lits : List Lit) : Prop :=
  (∃ l ∈ lits, l.HoldsOn stack) ∨
    ∃ l ∈ lits, ∃ other ∈ lits, l ≠ other ∧ l.OpenOn stack ∧ other.OpenOn stack

/-- All literals but at most one fail: the clause fails or is about to force what is left. -/
def Forcing (stack : List Assignment) (lits : List Lit) : Prop :=
  ∃ first, ∀ l ∈ lits, l ≠ first → l.FailsOn stack

/-- What a status says of the literals of a clause on a stack. -/
def ClauseStatus.Describes (stack : List Assignment) (lits : List Lit) : ClauseStatus → Prop
  | .satisfied => ∃ l ∈ lits, l.HoldsOn stack
  | .unit l => l ∈ lits ∧ l.OpenOn stack ∧ ∀ other ∈ lits, other ≠ l → other.FailsOn stack
  | .conflicting => ∀ l ∈ lits, l.FailsOn stack
  | .unresolved => (∀ l ∈ lits, ¬ l.HoldsOn stack) ∧
      ∃ l ∈ lits, ∃ other ∈ lits, l ≠ other ∧ l.OpenOn stack ∧ other.OpenOn stack

section Settled
variable {stack : List Assignment} {lits others : List Lit} {l : Lit}

theorem Settled.of_perm (settled : Settled stack lits) (perm : lits.Perm others) :
    Settled stack others := by
  rcases settled with ⟨l, member, holds⟩ | ⟨l, member, other, member', differ, isOpen⟩
  · exact .inl ⟨l, perm.mem_iff.mp member, holds⟩
  · exact .inr ⟨l, perm.mem_iff.mp member, other, perm.mem_iff.mp member', differ, isOpen⟩

/-- Only the assignments matter, not their order. -/
theorem Settled.of_subset {stack' : List Assignment} (settled : Settled stack lits)
    (included : stack ⊆ stack') (covered : stack' ⊆ stack) : Settled stack' lits := by
  rcases settled with ⟨l, member, holds⟩ | ⟨l, member, other, member', differ, isOpen, isOpen'⟩
  · exact .inl ⟨l, member, holds.mono included⟩
  · exact .inr ⟨l, member, other, member', differ, isOpen.anti covered, isOpen'.anti covered⟩

/-- A settled clause has a literal that does not fail. -/
theorem Settled.not_conflicting (settled : Settled stack lits) (stacked : Stacked stack)
    (fails : ∀ l ∈ lits, l.FailsOn stack) : False := by
  rcases settled with ⟨l, member, holds⟩ | ⟨l, member, _, _, _, isOpen, _⟩
  · exact stacked.not_fails_of_holds holds (fails l member)
  · exact isOpen.2 (fails l member)

/-- A settled clause forces nothing. -/
theorem Settled.not_unit (settled : Settled stack lits) (stacked : Stacked stack)
    (isOpen : l.OpenOn stack) (fails : ∀ other ∈ lits, other ≠ l → other.FailsOn stack) : False := by
  rcases settled with ⟨other, member, holds⟩ | ⟨first, member, second, member', differ, open₁, open₂⟩
  · have differs : other ≠ l := by
      rintro rfl
      exact isOpen.1 holds
    exact stacked.not_fails_of_holds holds (fails other member differs)
  · by_cases same : first = l
    · exact open₂.2 (fails second member' fun equal => differ (same.trans equal.symm))
    · exact open₁.2 (fails first member same)

/-- A settled clause of which at most one literal does not fail has one that holds. -/
theorem Settled.exists_holds (settled : Settled stack lits) (forcing : Forcing stack lits) :
    ∃ l ∈ lits, l.HoldsOn stack := by
  obtain ⟨last, fails⟩ := forcing
  rcases settled with met | ⟨first, member, second, member', differ, open₁, open₂⟩
  · exact met
  · by_cases same : first = last
    · exact (open₂.2 (fails second member' fun equal => differ (same.trans equal.symm))).elim
    · exact (open₁.2 (fails first member same)).elim

theorem Forcing.mono {below : List Assignment} (forcing : Forcing below lits)
    (included : below ⊆ stack) : Forcing stack lits := by
  obtain ⟨first, fails⟩ := forcing
  exact ⟨first, fun l member differs => (fails l member differs).mono included⟩

theorem ClauseStatus.Describes.settled_of_satisfied
    (describes : ClauseStatus.Describes stack lits .satisfied) : Settled stack lits := .inl describes

theorem ClauseStatus.Describes.settled_of_unresolved
    (describes : ClauseStatus.Describes stack lits .unresolved) : Settled stack lits :=
  .inr describes.2

/-- A settled clause is reported as satisfied or as unresolved. -/
theorem Settled.status_eq {status : ClauseStatus} (settled : Settled stack lits)
    (stacked : Stacked stack) (describes : status.Describes stack lits) :
    status = .satisfied ∨ status = .unresolved := by
  cases status with
  | satisfied => exact .inl rfl
  | unresolved => exact .inr rfl
  | conflicting => exact (settled.not_conflicting stacked describes).elim
  | unit l => exact (settled.not_unit stacked describes.2.1 describes.2.2).elim

/-- A clause of which one literal is open while all others fail is reported as forcing that literal. -/
theorem ClauseStatus.Describes.eq_unit {status : ClauseStatus} (describes : status.Describes stack lits)
    (stacked : Stacked stack) (member : l ∈ lits) (isOpen : l.OpenOn stack)
    (fails : ∀ other ∈ lits, other ≠ l → other.FailsOn stack) : status = .unit l := by
  have only : ∀ other ∈ lits, ¬ other.FailsOn stack → other = l := fun other listed unfailing => by
    by_contra differs
    exact unfailing (fails other listed differs)
  cases status with
  | satisfied =>
    obtain ⟨other, listed, holds⟩ := describes
    obtain rfl := only other listed (stacked.not_fails_of_holds holds)
    exact (isOpen.1 holds).elim
  | conflicting => exact (isOpen.2 (describes l member)).elim
  | unit forced =>
    obtain ⟨listed, forcedOpen, -⟩ := describes
    rw [only forced listed forcedOpen.2]
  | unresolved =>
    obtain ⟨-, first, listed, second, listed', differ, open₁, open₂⟩ := describes
    exact (differ ((only first listed open₁.2).trans (only second listed' open₂.2).symm)).elim

end Settled

/-- A literal that fails changes no status but that of a clause seen as satisfied. -/
private theorem ClauseStatus.Describes.concat_fails {stack : List Assignment} {lits : List Lit}
    {status : ClauseStatus} {l : Lit} (describes : status.Describes stack lits)
    (unsettled : status ≠ .satisfied) (stacked : Stacked stack) (fails : l.FailsOn stack) :
    status.Describes stack (lits ++ [l]) := by
  have within : ∀ {other : Lit}, other ∈ lits ++ [l] → other ∈ lits ∨ other = l := by
    simp [List.mem_append]
  cases status with
  | satisfied => exact (unsettled rfl).elim
  | conflicting =>
    intro other member
    rcases within member with member | rfl
    · exact describes other member
    · exact fails
  | unit forced =>
    obtain ⟨member, isOpen, rest⟩ := describes
    refine ⟨List.mem_append_left _ member, isOpen, ?_⟩
    intro other member differs
    rcases within member with member | rfl
    · exact rest other member differs
    · exact fails
  | unresolved =>
    obtain ⟨none, first, member, second, member', differ, isOpen⟩ := describes
    refine ⟨?_, first, List.mem_append_left _ member, second, List.mem_append_left _ member', differ,
      isOpen⟩
    intro other member holds
    rcases within member with member | rfl
    · exact none other member holds
    · exact stacked.not_fails_of_holds holds fails

/-- An open literal is the forced one or, after another open literal, leaves the clause unresolved. -/
private theorem ClauseStatus.Describes.concat_open {stack : List Assignment} {lits : List Lit}
    {status : ClauseStatus} {l : Lit} (describes : status.Describes stack lits)
    (unsettled : status ≠ .satisfied) (stacked : Stacked stack) (isOpen : l.OpenOn stack)
    (isNew : l ∉ lits) : (status.withUndetermined l).Describes stack (lits ++ [l]) := by
  have within : ∀ {other : Lit}, other ∈ lits ++ [l] → other ∈ lits ∨ other = l := by
    simp [List.mem_append]
  have last : l ∈ lits ++ [l] := List.mem_append_right _ (List.mem_singleton.mpr rfl)
  cases status with
  | satisfied => exact (unsettled rfl).elim
  | conflicting =>
    refine ⟨last, isOpen, ?_⟩
    intro other member differs
    rcases within member with member | rfl
    · exact describes other member
    · exact (differs rfl).elim
  | unit forced =>
    obtain ⟨member, forcedOpen, rest⟩ := describes
    refine ⟨?_, forced, List.mem_append_left _ member, l, last, ?_, forcedOpen, isOpen⟩
    · intro other member holds
      rcases within member with member | rfl
      · by_cases same : other = forced
        · exact forcedOpen.1 (same ▸ holds)
        · exact stacked.not_fails_of_holds holds (rest other member same)
      · exact isOpen.1 holds
    · rintro rfl
      exact isNew member
  | unresolved =>
    obtain ⟨none, first, member, second, member', differ, bothOpen⟩ := describes
    refine ⟨?_, first, List.mem_append_left _ member, second, List.mem_append_left _ member', differ,
      bothOpen⟩
    intro other member holds
    rcases within member with member | rfl
    · exact none other member holds
    · exact isOpen.1 holds

theorem ClauseStatus.withUndetermined_ne_satisfied (status : ClauseStatus) (l : Lit) :
    status.withUndetermined l ≠ .satisfied := by
  cases status <;> simp [withUndetermined]

namespace Trail.Coherent
variable {t : Trail}

/-- The scan extends what the status so far says of the literals before to all literals. -/
theorem scan_yields (coherent : t.Coherent) {seen : ClauseStatus} {before rest : List Lit}
    (inRange : ∀ l ∈ rest, l.var < t.varCount) (distinct : (before ++ rest).Nodup)
    (describes : seen.Describes t.stack before) (unsettled : seen ≠ .satisfied) :
    Yields (t.scan rest seen) fun status => status.Describes t.stack (before ++ rest) := by
  induction rest generalizing before seen with
  | nil =>
    rw [List.append_nil]
    exact yields_pure_iff.mpr describes
  | cons l rest ih =>
    have laterInRange : ∀ other ∈ rest, other.var < t.varCount :=
      fun other member => inRange other (List.mem_cons_of_mem _ member)
    rw [List.append_cons] at distinct ⊢
    rw [Trail.scan, coherent.valueOf_eq (inRange l (List.mem_cons_self ..)), ok_bind]
    cases value : l.truthOn t.stack with
    | holds =>
      refine yields_pure_iff.mpr ⟨l, by simp, ?_⟩
      exact coherent.stacked.truthOn_eq_holds_iff.mp value
    | fails =>
      have fails := coherent.stacked.truthOn_eq_fails_iff.mp value
      exact ih laterInRange distinct (describes.concat_fails unsettled coherent.stacked fails) unsettled
    | unknown =>
      have isOpen := truthOn_eq_unknown_iff.mp value
      have isNew : l ∉ before := by
        intro member
        have parts := List.nodup_append.mp (List.nodup_append.mp distinct).1
        exact parts.2.2 l member l (List.mem_singleton.mpr rfl) rfl
      exact ih laterInRange distinct
        (describes.concat_open unsettled coherent.stacked isOpen isNew)
        (ClauseStatus.withUndetermined_ne_satisfied seen l)

/-- The status of a clause says what its literals amount to. -/
theorem statusOf_yields (coherent : t.Coherent) {lits : List Lit}
    (inRange : ∀ l ∈ lits, l.var < t.varCount) (distinct : lits.Nodup) :
    Yields (t.statusOf lits) fun status => status.Describes t.stack lits := by
  have initial : ClauseStatus.Describes t.stack [] .conflicting := by
    intro l member
    cases member
  exact coherent.scan_yields inRange (show ([] ++ lits).Nodup from distinct) initial (by simp)

end Trail.Coherent

end ClauseLearning
