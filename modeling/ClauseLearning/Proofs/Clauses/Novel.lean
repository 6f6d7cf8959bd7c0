import ClauseLearning.Proofs.Clauses.Addition

/-! # Clauses that are new when they are learned

A learned clause is worth storing if no clause that is there already makes it redundant. In a `Novel`
database this was so of every learned clause at the time: as a set of literals it includes no clause
before it. Propagation cannot spoil this, since it leaves the sets of literals alone, and one more clause
keeps it if that clause is new in the same sense.
-/

namespace ClauseLearning.Database

def LearnedAt (db : Database) (id : Nat) : Prop := ∃ c, db.get? id = some c ∧ c.isLearned = true

/-- Learned clauses come after those given. None of them has a literal together with its negation, and
none includes a clause before it. -/
structure Novel (db : Database) : Prop where
  late : ∀ id id', id < id' → id' < db.size → db.LearnedAt id → db.LearnedAt id'
  clean : ∀ id, db.LearnedAt id → ∀ l ∈ db.litsOf id, l.negate ∉ db.litsOf id
  new : ∀ id id', id < id' → db.LearnedAt id' → ¬ db.litsOf id ⊆ db.litsOf id'

/-- Of the clauses given, each that has a literal and is no tautology is there as a set of literals. -/
def Retains (db : Database) (given : List (List Lit)) : Prop :=
  ∀ lits ∈ given, lits ≠ [] → (∀ l ∈ lits, l.negate ∉ lits) →
    ∃ id, ¬ db.LearnedAt id ∧ ∀ l, l ∈ db.litsOf id ↔ l ∈ lits

section Learned
variable {db db' : Database} {id : Nat} {lits : List Lit}

theorem LearnedAt.lt_size (learned : db.LearnedAt id) : id < db.size := by
  obtain ⟨c, found, -⟩ := learned
  exact (Array.getElem?_eq_some_iff.mp found).1

/-- Whether a clause was learned is kept with it, apart from its literals. -/
private theorem learnedAt_iff :
    db.LearnedAt id ↔ ∃ index, (db.clauses.map Clause.kind)[id]? = some (.learned index) := by
  simp only [LearnedAt, get?, Array.getElem?_map, Option.map_eq_some_iff]
  constructor
  · rintro ⟨c, found, learned⟩
    cases kind : c.kind with
    | input => simp [Clause.isLearned, kind] at learned
    | learned index => exact ⟨index, c, found, kind⟩
  · rintro ⟨index, c, found, kind⟩
    exact ⟨c, found, by simp [Clause.isLearned, kind]⟩

theorem Reordered.learnedAt_iff (reordered : db.Reordered db') : db'.LearnedAt id ↔ db.LearnedAt id := by
  rw [Database.learnedAt_iff, Database.learnedAt_iff, reordered.kinds_eq]

theorem learnedAt_addLearned_iff :
    (db.addLearned lits).LearnedAt id ↔ db.LearnedAt id ∨ id = db.size := by
  simp only [LearnedAt, get?, addLearned, size, Array.getElem?_push]
  split
  · rename_i last
    simp [last, Clause.isLearned, Clause.ofLits]
  · rename_i before
    simp [before]

/-- No clause of the input was learned. -/
theorem not_learnedAt (unlearned : ∀ c ∈ db.clauses.toList, c.isLearned = false) :
    ¬ db.LearnedAt id := by
  rintro ⟨c, found, learned⟩
  have listed : c ∈ db.clauses.toList :=
    Array.mem_toList_iff.mpr (Array.mem_of_getElem? found)
  rw [unlearned c listed] at learned
  cases learned

end Learned

namespace Novel
variable {db db' : Database} {id : Nat} {lits : List Lit} {given : List (List Lit)}

/-- The input alone has nothing learned. -/
theorem of_unlearned (unlearned : ∀ c ∈ db.clauses.toList, c.isLearned = false) : db.Novel where
  late _ _ _ _ learned := (not_learnedAt unlearned learned).elim
  clean _ learned := (not_learnedAt unlearned learned).elim
  new _ _ _ learned := (not_learnedAt unlearned learned).elim

theorem reordered (novel : db.Novel) (reordered : db.Reordered db') : db'.Novel where
  late id id' earlier inBounds learned := reordered.learnedAt_iff.mpr
    (novel.late id id' earlier (reordered.size_eq ▸ inBounds) (reordered.learnedAt_iff.mp learned))
  clean id learned l member negated := novel.clean id (reordered.learnedAt_iff.mp learned) l
    (reordered.mem_iff.mp member) (reordered.mem_iff.mp negated)
  new id id' earlier learned included :=
    novel.new id id' earlier (reordered.learnedAt_iff.mp learned) fun _ member =>
      reordered.mem_iff.mp (included (reordered.mem_iff.mpr member))

/-- A clause that is new keeps the database novel. -/
theorem addLearned (novel : db.Novel) (distinct : lits.Nodup) (clean : ∀ l ∈ lits, l.negate ∉ lits)
    (new : ∀ id < db.size, ¬ db.litsOf id ⊆ lits) : (db.addLearned lits).Novel := by
  have extended := db.extended_addLearned_of_nodup distinct
  refine ⟨?_, ?_, ?_⟩
  · intro id id' earlier inBounds learned
    rw [extended.size_eq] at inBounds
    rw [learnedAt_addLearned_iff] at learned ⊢
    rcases Nat.lt_succ_iff_lt_or_eq.mp inBounds with before | last
    · exact .inl (novel.late id id' earlier before (learned.resolve_right (by omega)))
    · exact .inr last
  · intro id learned
    rcases learnedAt_addLearned_iff.mp learned with before | rfl
    · rw [extended.litsOf_of_lt before.lt_size]
      exact novel.clean id before
    · rw [extended.litsOf_new]
      exact clean
  · intro id id' earlier learned
    rcases learnedAt_addLearned_iff.mp learned with before | rfl
    · rw [extended.litsOf_of_lt before.lt_size,
        extended.litsOf_of_lt (Nat.lt_trans earlier before.lt_size)]
      exact novel.new id id' earlier before
    · rw [extended.litsOf_new, extended.litsOf_of_lt earlier]
      exact new id earlier

/-- A learned clause has other literals than any other clause. -/
theorem eq_of_same_lits (novel : db.Novel) {id' : Nat} (learned : db.LearnedAt id) (inBounds : id' < db.size)
    (same : ∀ l, l ∈ db.litsOf id' ↔ l ∈ db.litsOf id) : id' = id := by
  rcases Nat.lt_trichotomy id' id with earlier | equal | later
  · exact (novel.new id' id earlier learned fun l => (same l).mp).elim
  · exact equal
  · have learned' := novel.late id id' later inBounds learned
    exact (novel.new id id' later learned' fun l => (same l).mpr).elim

/-- A learned clause includes none of the clauses given, those with no literal apart. -/
theorem not_subset_of_retains (novel : db.Novel) (retains : db.Retains given) (learned : db.LearnedAt id)
    (member : lits ∈ given) (nonempty : lits ≠ []) : ¬ lits ⊆ db.litsOf id := by
  intro included
  have clean : ∀ l ∈ lits, l.negate ∉ lits := fun l listed negated =>
    novel.clean id learned l (included listed) (included negated)
  obtain ⟨id', notLearned, same⟩ := retains lits member nonempty clean
  obtain ⟨l, listed⟩ := List.exists_mem_of_ne_nil lits nonempty
  have inBounds : id' < db.size := lt_size_of_mem ((same l).mpr listed)
  rcases Nat.lt_trichotomy id' id with earlier | rfl | later
  · exact novel.new id' id earlier learned fun l member => included ((same l).mp member)
  · exact notLearned learned
  · exact notLearned (novel.late id id' later inBounds learned)

end Novel

namespace Retains
variable {db db' : Database} {lits : List Lit} {given : List (List Lit)}

theorem reordered (retains : db.Retains given) (reordered : db.Reordered db') : db'.Retains given := by
  intro lits member nonempty clean
  obtain ⟨id, notLearned, same⟩ := retains lits member nonempty clean
  exact ⟨id, fun learned => notLearned (reordered.learnedAt_iff.mp learned),
    fun l => reordered.mem_iff.trans (same l)⟩

theorem addLearned (retains : db.Retains given) (distinct : lits.Nodup) :
    (db.addLearned lits).Retains given := by
  have extended := db.extended_addLearned_of_nodup distinct
  intro others member nonempty clean
  obtain ⟨id, notLearned, same⟩ := retains others member nonempty clean
  obtain ⟨l, listed⟩ := List.exists_mem_of_ne_nil others nonempty
  have inBounds : id < db.size := lt_size_of_mem ((same l).mpr listed)
  refine ⟨id, fun learned => ?_, fun l => by rw [extended.litsOf_of_lt inBounds, same]⟩
  exact (learnedAt_addLearned_iff.mp learned).elim notLearned (Nat.ne_of_lt inBounds)

end Retains

end ClauseLearning.Database
