import ClauseLearning.Proofs.Clauses.Status
import ClauseLearning.Satisfaction
import Mathlib.Data.List.Forall2

/-! # Databases whose clauses propagation may reorder

A database is well formed over a number of variables if every clause has a literal, repeats none and
stays within the variables. Propagation only permutes the literals inside clauses (`Reordered`), and
learning only adds clauses at the end; neither changes what a clause says. `SettledOn` lifts `Settled`
to all clauses.
-/

namespace ClauseLearning

/-- Every clause has a literal, repeats none and keeps to the variables. -/
structure Database.WellFormed (db : Database) (vars : Nat) : Prop where
  nonempty : ∀ id < db.size, db.litsOf id ≠ []
  nodup : ∀ id, (db.litsOf id).Nodup
  inRange : ∀ id, ∀ l ∈ db.litsOf id, l.var < vars

/-- The same clauses with their literals in another order. -/
structure Database.Reordered (db db' : Database) : Prop where
  kinds_eq : db'.clauses.map Clause.kind = db.clauses.map Clause.kind
  perm : ∀ id, (db'.litsOf id).Perm (db.litsOf id)

/-- Some literal of the clause holds on the stack. -/
def Database.MetOn (db : Database) (id : Nat) (stack : List Assignment) : Prop :=
  ∃ l ∈ db.litsOf id, l.HoldsOn stack

/-- All clauses are settled on the stack. -/
def Database.SettledOn (db : Database) (stack : List Assignment) : Prop :=
  ∀ id < db.size, Settled stack (db.litsOf id)

namespace Database
variable {db db' db'' : Database} {id vars : Nat} {l : Lit} {stack : List Assignment}

theorem litsOf_eq_of_lt (inBounds : id < db.clauses.size) : db.litsOf id = db.clauses[id].lits := by
  simp only [litsOf, get?]
  rw [Array.getElem?_eq_getElem inBounds]

theorem litsOf_eq_nil (outOfBounds : db.size ≤ id) : db.litsOf id = [] := by
  simp only [litsOf, get?]
  rw [Array.getElem?_eq_none outOfBounds]

/-- Only a clause of the database has a literal. -/
theorem lt_size_of_mem (member : l ∈ db.litsOf id) : id < db.size := by
  by_contra outOfBounds
  rw [litsOf_eq_nil (Nat.le_of_not_lt outOfBounds)] at member
  cases member

/-- A database without clauses is well formed. -/
theorem wellFormed_empty (vars : Nat) : ({} : Database).WellFormed vars where
  nonempty id inBounds := absurd inBounds (Nat.not_lt_zero id)
  nodup id := by
    rw [litsOf_eq_nil (Nat.zero_le id)]
    exact .nil
  inRange id l member := absurd (lt_size_of_mem member) (Nat.not_lt_zero id)

theorem clause_yields (inBounds : id < db.size) :
    Yields (db.clause id) fun c => c.lits = db.litsOf id := by
  refine .intro ?_ (litsOf_eq_of_lt inBounds).symm
  simp only [clause, get?]
  rw [Array.getElem?_eq_getElem inBounds]

theorem mem_clauses_iff {c : Clause} :
    c ∈ db.clauses.toList ↔ ∃ id, ∃ inBounds : id < db.clauses.size, db.clauses[id] = c := by
  rw [Array.mem_toList_iff, Array.mem_iff_getElem]

theorem satisfiedBy_iff {assignment : Nat → Bool} :
    db.SatisfiedBy assignment ↔ ∀ id < db.size, Satisfies assignment (db.litsOf id) := by
  constructor
  · intro satisfied id inBounds
    rw [litsOf_eq_of_lt inBounds]
    exact satisfied _ (mem_clauses_iff.mpr ⟨id, inBounds, rfl⟩)
  · intro satisfied c member
    obtain ⟨id, inBounds, rfl⟩ := mem_clauses_iff.mp member
    rw [← litsOf_eq_of_lt inBounds]
    exact satisfied id inBounds

/-- The clauses are visited by their numbers, each of them. -/
theorem mem_ids_iff : id ∈ db.ids ↔ id < db.size := by
  simp only [ids, numbered, List.map_append, List.mem_append, List.mem_map, List.mem_filter]
  constructor
  · rintro (⟨⟨c, place⟩, ⟨member, -⟩, rfl⟩ | ⟨⟨c, place⟩, ⟨member, -⟩, rfl⟩) <;>
    · have bound := List.snd_lt_of_mem_zipIdx member
      simpa [size] using bound
  · intro (inBounds : id < db.clauses.size)
    have member : (db.clauses[id], id) ∈ db.clauses.toList.zipIdx :=
      List.mk_mem_zipIdx_iff_getElem?.mpr (by simp [Array.getElem?_eq_getElem inBounds])
    cases learned : db.clauses[id].isLearned
    · exact .inl ⟨_, ⟨member, by simp [learned]⟩, rfl⟩
    · exact .inr ⟨_, ⟨member, learned⟩, rfl⟩

/-- The status of a clause of the database describes its literals. -/
theorem status_yields {t : Trail} (coherent : t.Coherent) (wellFormed : db.WellFormed t.varCount)
    (inBounds : id < db.size) :
    Yields (db.status id t) fun status => status.Describes t.stack (db.litsOf id) := by
  apply (clause_yields inBounds).bind
  intro c same
  rw [← same]
  exact coherent.statusOf_yields (same ▸ wellFormed.inRange id) (same ▸ wellFormed.nodup id)

theorem MetOn.mono {below : List Assignment} (met : db.MetOn id below) (included : below ⊆ stack) :
    db.MetOn id stack := by
  obtain ⟨l, member, holds⟩ := met
  exact ⟨l, member, holds.mono included⟩

namespace Reordered

theorem refl (db : Database) : db.Reordered db := ⟨rfl, fun _ => .refl _⟩

theorem trans (first : db.Reordered db') (second : db'.Reordered db'') : db.Reordered db'' :=
  ⟨second.kinds_eq.trans first.kinds_eq, fun id => (second.perm id).trans (first.perm id)⟩

theorem symm (reordered : db.Reordered db') : db'.Reordered db :=
  ⟨reordered.kinds_eq.symm, fun id => (reordered.perm id).symm⟩

theorem size_eq (reordered : db.Reordered db') : db'.size = db.size := by
  simpa [size] using congrArg Array.size reordered.kinds_eq

theorem mem_iff (reordered : db.Reordered db') : l ∈ db'.litsOf id ↔ l ∈ db.litsOf id :=
  (reordered.perm id).mem_iff

theorem wellFormed (reordered : db.Reordered db') (before : db.WellFormed vars) :
    db'.WellFormed vars where
  nonempty id inBounds empty :=
    before.nonempty id (reordered.size_eq ▸ inBounds) ((empty ▸ reordered.perm id).nil_eq).symm
  nodup id := (reordered.perm id).nodup_iff.mpr (before.nodup id)
  inRange id l member := before.inRange id l (reordered.mem_iff.mp member)

theorem satisfiedBy_iff (reordered : db.Reordered db') {assignment : Nat → Bool} :
    db'.SatisfiedBy assignment ↔ db.SatisfiedBy assignment := by
  simp only [Database.satisfiedBy_iff, reordered.size_eq,
    satisfies_congr fun _ => reordered.mem_iff]

theorem settledOn (reordered : db.Reordered db') (settled : db.SettledOn stack) :
    db'.SettledOn stack := fun id inBounds =>
  (settled id (reordered.size_eq ▸ inBounds)).of_perm (reordered.perm id).symm

/-- The learned clauses stay in their order. -/
theorem learned (reordered : db.Reordered db') :
    List.Forall₂ (fun c c' => c.lits.Perm c'.lits) db.learned db'.learned := by
  have same : List.Forall₂ (fun c c' : Clause => c.kind = c'.kind ∧ c.lits.Perm c'.lits)
      db.clauses.toList db'.clauses.toList := by
    refine List.forall₂_iff_get.mpr ⟨reordered.size_eq.symm, fun id inBounds inBounds' => ?_⟩
    have kind := congrArg (fun kinds => kinds[id]?) reordered.kinds_eq
    have perm := reordered.perm id
    simp only [Array.length_toList] at inBounds inBounds'
    rw [litsOf_eq_of_lt inBounds, litsOf_eq_of_lt inBounds'] at perm
    simp only [Array.getElem?_map, Array.getElem?_eq_getElem inBounds,
      Array.getElem?_eq_getElem inBounds', Option.map_some, Option.some.injEq] at kind
    exact ⟨kind.symm, perm.symm⟩
  refine (List.rel_filter (fun c c' same => ?_) same).imp fun _ _ => And.right
  simp only [Clause.isLearned, same.1]

end Reordered

theorem MetOn.reordered (met : db.MetOn id stack) (reordered : db.Reordered db') :
    db'.MetOn id stack := by
  obtain ⟨l, member, holds⟩ := met
  exact ⟨l, reordered.mem_iff.mpr member, holds⟩

theorem litsOf_reorder_self {lits : List Lit} (inBounds : id < db.size) :
    (db.reorder id lits).litsOf id = lits := by
  have found : db.clauses[id]? = some db.clauses[id] := Array.getElem?_eq_getElem inBounds
  simp [litsOf, get?, reorder, Array.getElem?_modify, found]

theorem litsOf_reorder_ne {lits : List Lit} {other : Nat} (differs : other ≠ id) :
    (db.reorder id lits).litsOf other = db.litsOf other := by
  simp [litsOf, get?, reorder, Array.getElem?_modify, differs.symm]

/-- The literals of one clause may be put into any order. -/
theorem reordered_reorder {lits : List Lit} (inBounds : id < db.size)
    (perm : lits.Perm (db.litsOf id)) : db.Reordered (db.reorder id lits) := by
  constructor
  · apply Array.ext
    · simp [reorder]
    · intro place _ _
      simp only [reorder, Array.getElem_map, Array.getElem_modify]
      split <;> rfl
  · intro other
    by_cases same : other = id
    · rw [same, litsOf_reorder_self inBounds]
      exact perm
    · rw [litsOf_reorder_ne same]

end Database

end ClauseLearning
