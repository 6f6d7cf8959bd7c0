import ClauseLearning.Proofs.Clauses.Addition
import ClauseLearning.Proofs.Clauses.Status
import ClauseLearning.Proofs.Trail.InUse

/-! # The status of a clause is a matter of its set of literals

A clause is made of literals with repetitions removed, and its scan counts how many of them are open. So
what it reports depends neither on the order of the literals given nor on their repetitions: each status
describes what some of them and all of them do on the trail, and exactly one status does. A clause down to
one literal is satisfied once the literal is made true, and falsified once it is made false.
-/

namespace ClauseLearning

/-- The status reported is the one that describes the literals. It is `unresolved` exactly if nothing else
describes them. -/
structure ClauseStatus.Reported (stack : List Assignment) (lits : List Lit)
    (outcome : Checked ClauseStatus) : Prop where
  describes_iff : ∀ status : ClauseStatus, outcome = .ok status ↔ status.Describes stack lits
  unresolved_iff : outcome = .ok .unresolved ↔
    ∀ status : ClauseStatus, status ≠ .unresolved → ¬ status.Describes stack lits

namespace ClauseStatus.Describes
variable {stack : List Assignment} {lits others : List Lit} {status status' : ClauseStatus} {l : Lit}
  {a : Assignment}

theorem congr (same : ∀ l, l ∈ others ↔ l ∈ lits) :
    status.Describes stack others ↔ status.Describes stack lits := by
  cases status <;> simp only [Describes, same]

/-- No two statuses describe the same literals. -/
theorem unique (describes : status.Describes stack lits) (describes' : status'.Describes stack lits)
    (stacked : Stacked stack) : status = status' := by
  cases status with
  | unit l =>
    obtain ⟨member, isOpen, fails⟩ := describes
    exact (describes'.eq_unit stacked member isOpen fails).symm
  | conflicting =>
    cases status' with
    | conflicting => rfl
    | unit l => exact (describes'.2.1.2 (describes l describes'.1)).elim
    | satisfied => exact (describes'.settled_of_satisfied.not_conflicting stacked describes).elim
    | unresolved => exact (describes'.settled_of_unresolved.not_conflicting stacked describes).elim
  | satisfied =>
    rcases describes.settled_of_satisfied.status_eq stacked describes' with same | rfl
    · exact same.symm
    · obtain ⟨l, member, holds⟩ := describes
      exact (describes'.1 l member holds).elim
  | unresolved =>
    rcases describes.settled_of_unresolved.status_eq stacked describes' with rfl | same
    · obtain ⟨l, member, holds⟩ := describes'
      exact (describes.1 l member holds).elim
    · exact same.symm

theorem satisfied_cons (describes : (unit l).Describes stack lits) (held : a.lit = l) :
    satisfied.Describes (a :: stack) lits := ⟨l, describes.1, holdsOn_cons_iff.mpr (.inl held)⟩

theorem conflicting_cons (describes : (unit l).Describes stack lits) (failed : a.lit = l.negate) :
    conflicting.Describes (a :: stack) lits := by
  intro other member
  by_cases same : other = l
  · exact failsOn_cons_iff.mpr (.inl (same ▸ failed))
  · exact failsOn_cons_iff.mpr (.inr (describes.2.2 other member same))

end ClauseStatus.Describes

namespace Trail
variable {t : Trail} {lits others : List Lit} {l : Lit}

namespace Coherent

/-- The status of a clause describes the literals that the clause was made of. -/
theorem status_ofLits_yields (coherent : t.Coherent) (inRange : ∀ l ∈ lits, l.var < t.varCount)
    (kind : ClauseKind) :
    Yields (t.statusOf (Clause.ofLits lits kind).lits) fun status => status.Describes t.stack lits := by
  have kept : ∀ l, l ∈ lits.eraseDups ↔ l ∈ lits := fun _ => List.mem_eraseDups
  apply (coherent.statusOf_yields (fun l member => inRange l ((kept l).mp member))
    (nodup_eraseDups lits)).imp
  exact fun status => (ClauseStatus.Describes.congr kept).mp

theorem status_ofLits_reported (coherent : t.Coherent) (inRange : ∀ l ∈ lits, l.var < t.varCount)
    (kind : ClauseKind) :
    ClauseStatus.Reported t.stack lits (t.statusOf (Clause.ofLits lits kind).lits) := by
  obtain ⟨found, same, describes⟩ := coherent.status_ofLits_yields inRange kind
  rw [same]
  constructor
  · intro status
    rw [Except.ok.injEq]
    constructor
    · rintro rfl
      exact describes
    · exact fun describes' => describes.unique describes' coherent.stacked
  · constructor
    · rintro ⟨⟩ status differs describes'
      exact differs (describes'.unique describes coherent.stacked)
    · intro otherwise
      by_contra differs
      exact otherwise found (fun unresolved => differs (congrArg Except.ok unresolved)) describes

/-- The next assignment may be of any literal that is open. -/
theorem push_openOn_yields (coherent : t.Coherent) (inRange : l.var < t.varCount)
    (isOpen : l.OpenOn t.stack) (reason : Reason) :
    Yields (t.push ⟨l, t.levelFor reason, reason⟩) (Made t ⟨l, t.levelFor reason, reason⟩) :=
  coherent.push_yields inRange (openOn_iff.mp isOpen) (coherent.levelFor_eq reason)

/-- After an assignment, the status of a clause is the one that describes it on top of the stack before. -/
theorem Made.status_ofLits_eq {t' : Trail} {a : Assignment} {status : ClauseStatus} (made : Made t a t')
    (inRange : ∀ l ∈ lits, l.var < t.varCount) (kind : ClauseKind)
    (describes : status.Describes (a :: t.stack) lits) :
    t'.statusOf (Clause.ofLits lits kind).lits = .ok status := by
  have reported := made.coherent.status_ofLits_reported (made.varCount_eq.symm ▸ inRange) kind
  rw [made.stack_eq] at reported
  exact (reported.describes_iff status).mpr describes

end Coherent

/-- On a trail in use, the status of a clause is the one that describes the literals that the clause was
made of, so it is the same for any other list of these literals. If one literal is left, the clause is
satisfied or falsified by the next assignment, whichever literal of the two that makes true. -/
theorem statusOf_reports {vars : Nat} (inUse : InUse vars t) (inRange : ∀ l ∈ lits, l.var < vars)
    (kind : ClauseKind) :
    ClauseStatus.Reported t.stack lits (t.statusOf (Clause.ofLits lits kind).lits) ∧
    (∀ others kind', (∀ l, l ∈ others ↔ l ∈ lits) →
      t.statusOf (Clause.ofLits others kind').lits = t.statusOf (Clause.ofLits lits kind).lits) ∧
    ∀ l, t.statusOf (Clause.ofLits lits kind).lits = .ok (.unit l) → ∀ reason,
      (∃ t', t.push ⟨l, t.levelFor reason, reason⟩ = .ok t' ∧
        t'.statusOf (Clause.ofLits lits kind).lits = .ok .satisfied) ∧
      ∃ t', t.push ⟨l.negate, t.levelFor reason, reason⟩ = .ok t' ∧
        t'.statusOf (Clause.ofLits lits kind).lits = .ok .conflicting := by
  obtain ⟨coherent, rfl⟩ := inUse.coherent
  have reported := coherent.status_ofLits_reported inRange kind
  refine ⟨reported, fun others kind' same => ?_, fun l unit reason => ?_⟩
  · obtain ⟨status, found, describes⟩ := coherent.status_ofLits_yields
      (fun l member => inRange l ((same l).mp member)) kind'
    rw [found, eq_comm, reported.describes_iff]
    exact (ClauseStatus.Describes.congr same).mp describes
  · have describes := (reported.describes_iff _).mp unit
    have inTrail := inRange l describes.1
    have isOpen := describes.2.1
    obtain ⟨held, pushed, made⟩ := coherent.push_openOn_yields inTrail isOpen reason
    obtain ⟨failed, pushed', made'⟩ :=
      coherent.push_openOn_yields (l := l.negate) inTrail (openOn_negate_iff.mpr isOpen) reason
    exact ⟨⟨held, pushed, made.status_ofLits_eq inRange kind (describes.satisfied_cons rfl)⟩,
      failed, pushed', made'.status_ofLits_eq inRange kind (describes.conflicting_cons rfl)⟩

/-- Two literals that fail and an open one, each of them twice. -/
def doubled : List Lit := [⟨2, true⟩, ⟨0, false⟩, ⟨2, true⟩, ⟨1, true⟩, ⟨0, false⟩, ⟨1, true⟩]

theorem statusOf_reports_doubled : ∃ t : Trail, InUse 4 t ∧ (∀ l ∈ doubled, l.var < 4) ∧
    t.statusOf (Clause.ofLits doubled .input).lits = .ok (.unit ⟨2, true⟩) ∧
    t.statusOf (Clause.ofLits doubled.reverse (.learned 0)).lits = .ok (.unit ⟨2, true⟩) ∧
    ∃ t', t.choose ⟨2, false⟩ = .ok t' ∧
      t'.statusOf (Clause.ofLits doubled .input).lits = .ok .conflicting := by
  obtain ⟨t, inUse, unit⟩ : ∃ t : Trail, InUse 4 t ∧
      t.statusOf (Clause.ofLits doubled .input).lits = .ok (.unit ⟨2, true⟩) := by
    have start : InUse 4 (.empty 4) := .empty
    have bottom := (start.imply ⟨0, true⟩ 5 rfl).choose ⟨3, false⟩ rfl
    have raised := bottom.choose ⟨2, true⟩ rfl
    exact ⟨_, (raised.backTo 1).imply ⟨1, false⟩ 6 rfl, by decide +kernel⟩
  have inRange : ∀ l ∈ doubled, l.var < 4 := by decide
  obtain ⟨-, repeated, next⟩ := statusOf_reports inUse inRange .input
  have reversed := repeated doubled.reverse (.learned 0) fun _ => List.mem_reverse
  exact ⟨t, inUse, inRange, unit, reversed.trans unit, (next _ unit .decision).2⟩

end Trail

end ClauseLearning
