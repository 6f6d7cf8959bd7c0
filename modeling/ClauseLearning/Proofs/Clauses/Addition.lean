import ClauseLearning.Proofs.Clauses.Database

/-! # Adding clauses

A clause is made of literals with repetitions removed. Added to a database it gets the next number,
and the clauses before it stay as they are, so a database that grows by clauses that follow from it
keeps its satisfying assignments.
-/

namespace ClauseLearning

structure Database.Extended (db : Database) (lits : List Lit) (db' : Database) : Prop where
  size_eq : db'.size = db.size + 1
  litsOf_new : db'.litsOf db.size = lits
  litsOf_old : ∀ id, id ≠ db.size → db'.litsOf id = db.litsOf id

section Repetition
variable {α : Type} [BEq α] [LawfulBEq α]

/-- The one list has the elements of the other, each once and in the order of their first occurrences. -/
structure FirstOccurrences (kept xs : List α) : Prop where
  mem_iff : ∀ x, x ∈ kept ↔ x ∈ xs
  ordered : kept.Pairwise fun x y => xs.idxOf x < xs.idxOf y

/-- Elements that are kept occur in the same order when others are removed. -/
private theorem idxOf_lt_of_filter {keep : α → Bool} {x y : α} (first : keep x = true)
    (second : keep y = true) {xs : List α}
    (earlier : (xs.filter keep).idxOf x < (xs.filter keep).idxOf y) : xs.idxOf x < xs.idxOf y := by
  induction xs with
  | nil => simp at earlier
  | cons z rest ih =>
    by_cases kept : keep z = true
    · rw [List.filter_cons_of_pos kept, List.idxOf_cons, List.idxOf_cons] at earlier
      rw [List.idxOf_cons, List.idxOf_cons]
      cases here : z == x <;> cases there : z == y <;>
        simp only [here, there, cond_true, cond_false] at earlier ⊢
      · exact Nat.succ_lt_succ (ih (Nat.lt_of_succ_lt_succ earlier))
      · exact absurd earlier (Nat.not_lt_zero _)
      · exact Nat.succ_pos _
      · exact earlier
    · have differs : ∀ {w : α}, keep w = true → z ≠ w := by
        rintro w here rfl
        exact kept here
      rw [List.filter_cons_of_neg kept] at earlier
      rw [List.idxOf_cons_ne _ (differs first), List.idxOf_cons_ne _ (differs second)]
      exact Nat.succ_lt_succ (ih earlier)

/-- Of each element only the first occurrence stays. -/
theorem firstOccurrences_eraseDups (xs : List α) : FirstOccurrences xs.eraseDups xs := by
  refine ⟨fun x => List.mem_eraseDups, ?_⟩
  induction length : xs.length using Nat.strongRecOn generalizing xs with
  | _ n ih =>
    cases xs with
    | nil => exact .nil
    | cons x rest =>
      rw [List.eraseDups_cons]
      have shorter : (rest.filter fun y => !y == x).length < n := by
        have bound := List.length_filter_le (fun y => !y == x) rest
        simp only [List.length_cons] at length
        omega
      have differs : ∀ y ∈ (rest.filter fun y => !y == x).eraseDups, x ≠ y := by
        rintro y member rfl
        simp at member
      refine List.pairwise_cons.mpr ⟨fun y member => ?_, (ih _ shorter _ rfl).imp_of_mem ?_⟩
      · rw [List.idxOf_cons_self, List.idxOf_cons_ne _ (differs y member)]
        exact Nat.succ_pos _
      · intro y z member member' earlier
        rw [List.idxOf_cons_ne _ (differs y member), List.idxOf_cons_ne _ (differs z member')]
        refine Nat.succ_lt_succ (idxOf_lt_of_filter ?_ ?_ earlier)
        · exact (List.mem_filter.mp (List.mem_eraseDups.mp member)).2
        · exact (List.mem_filter.mp (List.mem_eraseDups.mp member')).2

theorem nodup_eraseDups (xs : List α) : xs.eraseDups.Nodup :=
  (firstOccurrences_eraseDups xs).ordered.imp fun earlier same => by
    rw [same] at earlier
    exact Nat.lt_irrefl _ earlier

/-- An element that does not occur again stays, and changes nothing for those after it. -/
theorem eraseDups_cons_of_not_mem {x : α} {xs : List α} (isNew : x ∉ xs) :
    (x :: xs).eraseDups = x :: xs.eraseDups := by
  have others : xs.filter (fun y => !y == x) = xs := by
    apply List.filter_eq_self.mpr
    intro y member
    have differs : y ≠ x := by
      rintro rfl
      exact isNew member
    simpa using differs
  rw [List.eraseDups_cons, others]

omit [LawfulBEq α] in
@[simp] theorem eraseDups_eq_nil_iff {xs : List α} : xs.eraseDups = [] ↔ xs = [] := by
  cases xs with
  | nil => simp
  | cons x rest => simp [List.eraseDups_cons]

/-- Without repetitions there is nothing to remove. -/
theorem eraseDups_eq_self {xs : List α} (distinct : xs.Nodup) : xs.eraseDups = xs := by
  induction xs with
  | nil => rfl
  | cons x rest ih =>
    obtain ⟨isNew, distinct⟩ := List.nodup_cons.mp distinct
    rw [eraseDups_cons_of_not_mem isNew, ih distinct]

end Repetition

namespace Database
variable {db db' : Database} {lits : List Lit} {vars : Nat}

private theorem extended_push (db : Database) (c : Clause) :
    db.Extended c.lits ⟨db.clauses.push c⟩ := by
  refine ⟨by simp [size], by simp [litsOf, get?, size], ?_⟩
  intro id differs
  have same : (db.clauses.push c)[id]? = db.clauses[id]? := by
    exact Array.getElem?_push.trans (if_neg differs)
  simp [litsOf, get?, same]

theorem extended_addInput (db : Database) (lits : List Lit) :
    db.Extended lits.eraseDups (db.addInput lits) :=
  extended_push db (Clause.ofLits lits .input)

theorem extended_addLearned (db : Database) (lits : List Lit) :
    db.Extended lits.eraseDups (db.addLearned lits) :=
  extended_push db (Clause.ofLits lits (.learned db.learnedCount))

theorem extended_addLearned_of_nodup (db : Database) (distinct : lits.Nodup) :
    db.Extended lits (db.addLearned lits) := by
  have extended := db.extended_addLearned lits
  rwa [eraseDups_eq_self distinct] at extended

/-- The clause just added is found under its number. -/
theorem clause_addInput (db : Database) (lits : List Lit) :
    (db.addInput lits).clause db.size = .ok (Clause.ofLits lits .input) := by
  simp [clause, get?, addInput, size]

theorem clause_addLearned (db : Database) (lits : List Lit) :
    (db.addLearned lits).clause db.size = .ok (Clause.ofLits lits (.learned db.learnedCount)) := by
  simp [clause, get?, addLearned, size]

/-- The clause just learned comes after those learned before. -/
theorem learned_addLearned (db : Database) (lits : List Lit) :
    (db.addLearned lits).learned = db.learned ++ [Clause.ofLits lits (.learned db.learnedCount)] := by
  simp [learned, addLearned, Clause.isLearned, Clause.ofLits]

/-- Repetitions within a clause make no difference to the database. -/
theorem addInput_eraseDups (db : Database) (lits : List Lit) :
    db.addInput lits.eraseDups = db.addInput lits := by
  rw [addInput, addInput, Clause.ofLits, Clause.ofLits, eraseDups_eq_self (nodup_eraseDups lits)]

theorem addLearned_eraseDups (db : Database) (lits : List Lit) :
    db.addLearned lits.eraseDups = db.addLearned lits := by
  simp only [addLearned, Clause.ofLits, eraseDups_eq_self (nodup_eraseDups lits)]

namespace Extended

theorem litsOf_of_lt (extended : db.Extended lits db') {id : Nat} (inBounds : id < db.size) :
    db'.litsOf id = db.litsOf id := extended.litsOf_old id (Nat.ne_of_lt inBounds)

/-- Whatever holds of the clauses before and of the new one holds of all. -/
theorem forall_lt (extended : db.Extended lits db') (Fine : List Lit → Prop)
    (before : ∀ id < db.size, Fine (db.litsOf id)) (added : Fine lits) :
    ∀ id < db'.size, Fine (db'.litsOf id) := by
  intro id inBounds
  rw [extended.size_eq] at inBounds
  rcases Nat.lt_succ_iff_lt_or_eq.mp inBounds with earlier | rfl
  · rw [extended.litsOf_of_lt earlier]
    exact before id earlier
  · rw [extended.litsOf_new]
    exact added

theorem wellFormed (extended : db.Extended lits db') (before : db.WellFormed vars)
    (nonempty : lits ≠ []) (distinct : lits.Nodup) (inRange : ∀ l ∈ lits, l.var < vars) :
    db'.WellFormed vars where
  nonempty := extended.forall_lt (· ≠ []) before.nonempty nonempty
  nodup id := by
    by_cases new : id = db.size
    · rw [new, extended.litsOf_new]
      exact distinct
    · rw [extended.litsOf_old id new]
      exact before.nodup id
  inRange id := by
    by_cases new : id = db.size
    · rw [new, extended.litsOf_new]
      exact inRange
    · rw [extended.litsOf_old id new]
      exact before.inRange id

theorem satisfiedBy_iff (extended : db.Extended lits db') {assignment : Nat → Bool} :
    db'.SatisfiedBy assignment ↔ db.SatisfiedBy assignment ∧ Satisfies assignment lits := by
  simp only [Database.satisfiedBy_iff]
  constructor
  · intro satisfied
    constructor
    · intro id inBounds
      rw [← extended.litsOf_of_lt inBounds]
      exact satisfied id (by rw [extended.size_eq]; omega)
    · rw [← extended.litsOf_new]
      exact satisfied db.size (by rw [extended.size_eq]; omega)
  · rintro ⟨before, added⟩
    exact extended.forall_lt (Satisfies assignment) before added

theorem settledOn (extended : db.Extended lits db') {stack : List Assignment}
    (before : db.SettledOn stack) (added : Settled stack lits) : db'.SettledOn stack :=
  extended.forall_lt (Settled stack) before added

end Extended

end Database

end ClauseLearning
