import ClauseLearning.Proofs.Checked
import ClauseLearning.Proofs.Clauses.Addition
import ClauseLearning.Watch
import Mathlib.Logic.Function.Basic

/-! # Watch lists and the clauses that they stand for

A clause of two or more literals watches its first two. `Watching` says that the watch lists hold
exactly one watcher for each of them, in the list of its negation, with another literal of the clause
as blocker, and nothing else. It is stated of any assignment of lists to literals, so that it can be
said of a table while one of its lists is taken out and worked on.
-/

namespace ClauseLearning

/-- The clause watches the literal: it is one of the first two of its literals. -/
def Database.Watches (db : Database) (id : Nat) (l : Lit) : Prop :=
  ∃ first second rest, db.litsOf id = first :: second :: rest ∧ (l = first ∨ l = second)

/-- The lists hold one watcher for each literal that an attached clause watches, and none besides. Its
blocker is some literal of the clause. -/
structure Placed (db : Database) (attached : Set Nat) (lists : Lit → List Watcher) : Prop where
  distinct : ∀ l, ((lists l).map Watcher.clause).Nodup
  watched : ∀ l id, id ∈ (lists l).map Watcher.clause ↔ id ∈ attached ∧ db.Watches id l.negate
  blocked : ∀ l, ∀ w ∈ lists l, w.blocker ∈ db.litsOf w.clause

/-- No watcher has for its blocker the literal that it watches. -/
def Apart (lists : Lit → List Watcher) : Prop := ∀ l, ∀ w ∈ lists l, w.blocker ≠ l.negate

/-- The lists hold a watcher for each literal that a clause watches, and none besides. -/
structure Watching (db : Database) (lists : Lit → List Watcher) : Prop where
  distinct : ∀ l, ((lists l).map Watcher.clause).Nodup
  watched : ∀ l id, id ∈ (lists l).map Watcher.clause ↔ db.Watches id l.negate
  blocked : ∀ l, ∀ w ∈ lists l, w.blocker ∈ db.litsOf w.clause ∧ w.blocker ≠ l.negate

/-- A clause watches the literal found instead of the failed one, besides its first literal. The other
clauses stay as they are. -/
structure Database.Rewatches (db db' : Database) (id : Nat) (first failed found : Lit) : Prop where
  before : ∀ l, db.Watches id l ↔ l = first ∨ l = failed
  after : ∀ l, db'.Watches id l ↔ l = first ∨ l = found
  others : ∀ other, other ≠ id → db'.litsOf other = db.litsOf other
  reordered : db.Reordered db'
  firstNe : first ≠ failed
  foundNe : found ≠ failed
  foundNeFirst : found ≠ first

/-- The lists after a watcher has left the list of the failed literal and entered the one of the literal
found. -/
def movedLists (lists : Lit → List Watcher) (failed found : Lit) (left : List Watcher)
    (entered : Watcher) : Lit → List Watcher :=
  Function.update (Function.update lists found.negate (lists found.negate ++ [entered])) failed.negate left

section Watches
variable {db db' : Database} {id : Nat} {l first second : Lit} {rest : List Lit}

theorem Database.watches_iff_of_eq (same : db.litsOf id = first :: second :: rest) :
    db.Watches id l ↔ l = first ∨ l = second := by
  constructor
  · rintro ⟨first', second', rest', same', watched⟩
    obtain ⟨rfl, rfl, -⟩ : first = first' ∧ second = second' ∧ rest = rest' := by
      simpa using same.symm.trans same'
    exact watched
  · exact fun watched => ⟨first, second, rest, same, watched⟩

theorem Database.Watches.mem (watches : db.Watches id l) : l ∈ db.litsOf id := by
  obtain ⟨first, second, rest, same, rfl | rfl⟩ := watches <;> simp [same]

theorem Database.Watches.congr (same : db'.litsOf id = db.litsOf id) :
    db'.Watches id l ↔ db.Watches id l := by
  simp only [Database.Watches, same]

end Watches

/-- After a move there is the list left, the list entered, and all others. -/
theorem movedLists_cases {lists : Lit → List Watcher} {failed found : Lit} {left : List Watcher}
    {entered : Watcher} (motive : Lit → List Watcher → Prop) (leaves : motive failed.negate left)
    (enters : found.negate ≠ failed.negate →
      motive found.negate (lists found.negate ++ [entered]))
    (others : ∀ l, l ≠ failed.negate → l ≠ found.negate → motive l (lists l)) (l : Lit) :
    motive l (movedLists lists failed found left entered l) := by
  refine (Function.forall_update_iff _ motive).mpr ⟨leaves, fun l here => ?_⟩ l
  by_cases there : l = found.negate
  · subst there
    rw [Function.update_self]
    exact enters here
  · rw [Function.update_of_ne there]
    exact others l here there

namespace WatchTable

/-- The watchers in the list of a literal, none for a literal outside the table. -/
def listOf (table : WatchTable) (l : Lit) : List Watcher := table.lists.getD l.code []

/-- The table has a list for each literal over the variables. -/
def Covers (table : WatchTable) (vars : Nat) : Prop := table.lists.size = literalCount vars

section
variable {table : WatchTable} {vars : Nat} {l : Lit}

/-- A table made for all literals over the variables has room for them, and nothing is watched. -/
theorem spec_of_empty (made : empty (literalCount vars) = .ok table) :
    table.Covers vars ∧ ∀ l, table.listOf l = [] := by
  obtain ⟨lists, madeLists, same⟩ := Checked.bind_eq_ok_iff.mp made
  cases same
  rw [newTable] at madeLists
  split at madeLists
  · cases madeLists
    refine ⟨by simp [Covers], fun l => ?_⟩
    simp only [listOf, Array.getD_eq_getD_getElem?, Array.getElem?_replicate]
    split <;> rfl
  · cases madeLists

theorem Covers.code_lt (covers : table.Covers vars) (inRange : l.var < vars) :
    l.code < table.lists.size := by
  rw [covers, Lit.code, literalCount]
  cases l.negative <;> simp only [Bool.toNat_true, Bool.toNat_false] <;> omega

theorem watchers_yields (covers : table.Covers vars) (inRange : l.var < vars) :
    Yields (table.watchers l) fun watchers => watchers = table.listOf l := by
  have inBounds := covers.code_lt inRange
  refine .intro (fetch_of_lt inBounds) ?_
  simp [listOf, Array.getD, inBounds]

/-- Replacing the list of a literal leaves the others as they are. -/
theorem put_yields (covers : table.Covers vars) (inRange : l.var < vars) (watchers : List Watcher) :
    Yields (table.put l watchers) fun table' =>
      table'.Covers vars ∧ table'.listOf = Function.update table.listOf l watchers := by
  have inBounds := covers.code_lt inRange
  rw [put, store_of_lt _ inBounds]
  refine yields_pure_iff.mpr ⟨?_, ?_⟩
  · rw [Covers, Array.size_set]
    exact covers
  · funext other
    by_cases same : other = l
    · subst same
      simp [listOf, inBounds]
    · have differs : l.code ≠ other.code := fun equal => same (Lit.code_injective equal).symm
      simp [listOf, Function.update_of_ne same, Array.getD_eq_getD_getElem?,
        Array.getElem?_set_ne _ differs]

/-- A new watcher goes to the end of the list of the negated literal. -/
theorem watch_yields (covers : table.Covers vars) (inRange : l.var < vars) (id : Nat)
    (blocker : Lit) :
    Yields (table.watch l id blocker) fun table' => table'.Covers vars ∧
      table'.listOf =
        Function.update table.listOf l.negate (table.listOf l.negate ++ [⟨id, blocker⟩]) := by
  have inRange' : l.negate.var < vars := inRange
  apply (watchers_yields covers inRange').bind
  rintro watchers rfl
  exact put_yields covers inRange' _

end

end WatchTable

section Changes
variable {db db' : Database} {attached : Set Nat} {lists : Lit → List Watcher} {id : Nat}
  {failed first found : Lit} {done rest : List Watcher} {watcher : Watcher}

/-- If every clause is attached and the blockers are apart, the lists are right. -/
theorem Placed.watching (placed : Placed db Set.univ lists) (apart : Apart lists) :
    Watching db lists where
  distinct := placed.distinct
  watched l id := (placed.watched l id).trans (and_iff_right trivial)
  blocked l w listed := ⟨placed.blocked l w listed, apart l w listed⟩

namespace Watching

theorem placed (watching : Watching db lists) : Placed db Set.univ lists where
  distinct := watching.distinct
  watched l id := (watching.watched l id).trans (and_iff_right trivial).symm
  blocked l w listed := (watching.blocked l w listed).1

theorem apart (watching : Watching db lists) : Apart lists :=
  fun l w listed => (watching.blocked l w listed).2

end Watching

namespace Placed

/-- Reordering that keeps what each clause watches leaves the watchers in place. -/
theorem reordered (placed : Placed db attached lists) (reordered : db.Reordered db')
    (same : ∀ id l, db'.Watches id l ↔ db.Watches id l) : Placed db' attached lists where
  distinct := placed.distinct
  watched l id := (placed.watched l id).trans (and_congr_right' (same id l.negate).symm)
  blocked l w listed := reordered.mem_iff.mpr (placed.blocked l w listed)

/-- The order of the watchers in a list makes no difference. -/
theorem perm {lists' : Lit → List Watcher} (placed : Placed db attached lists)
    (perm : ∀ l, (lists l).Perm (lists' l)) : Placed db attached lists' where
  distinct l := ((perm l).map _).nodup_iff.mp (placed.distinct l)
  watched l id := ((perm l).map _).mem_iff.symm.trans (placed.watched l id)
  blocked l w listed := placed.blocked l w ((perm l).mem_iff.mpr listed)

/-- The clauses in the lists do not depend on the blockers. -/
private theorem map_clause_reblock (l : Lit) :
    (Function.update lists failed.negate (done ++ { watcher with blocker := first } :: rest) l).map
        Watcher.clause =
      (Function.update lists failed.negate (done ++ watcher :: rest) l).map Watcher.clause := by
  by_cases here : l = failed.negate
  · subst here
    simp
  · simp [Function.update_of_ne here]

/-- The blocker of a watcher may be any literal of its clause. -/
theorem reblock
    (placed : Placed db attached (Function.update lists failed.negate (done ++ watcher :: rest)))
    (member : first ∈ db.litsOf watcher.clause) :
    Placed db attached (Function.update lists failed.negate
      (done ++ { watcher with blocker := first } :: rest)) where
  distinct l := by
    rw [map_clause_reblock]
    exact placed.distinct l
  watched l id := by
    rw [map_clause_reblock]
    exact placed.watched l id
  blocked l w listed := by
    have blocked := placed.blocked l
    by_cases here : l = failed.negate
    · subst here
      simp only [Function.update_self, List.mem_append, List.mem_cons] at listed blocked
      rcases listed with listed | rfl | listed
      · exact blocked w (.inl listed)
      · exact member
      · exact blocked w (.inr (.inr listed))
    · rw [Function.update_of_ne here] at listed blocked
      exact blocked w listed

/-- The other clauses are in the lists in which they were. -/
private theorem mem_moved_of_ne (unmoved : id ≠ watcher.clause) (l : Lit) :
    id ∈ (movedLists lists failed found (done ++ rest) ⟨watcher.clause, first⟩ l).map Watcher.clause ↔
      id ∈ (Function.update lists failed.negate (done ++ watcher :: rest) l).map Watcher.clause := by
  refine movedLists_cases (fun l watchers => id ∈ watchers.map Watcher.clause ↔
    id ∈ (Function.update lists failed.negate (done ++ watcher :: rest) l).map Watcher.clause) ?_
    (fun separate => ?_) (fun l left _ => ?_) l
  · simp [unmoved]
  · simp [Function.update_of_ne separate, unmoved]
  · rw [Function.update_of_ne left]

/-- The list that the watcher has left does not have its clause any more. -/
private theorem left_distinct
    (placed : Placed db attached (Function.update lists failed.negate (done ++ watcher :: rest))) :
    watcher.clause ∉ (done ++ rest).map Watcher.clause ∧ ((done ++ rest).map Watcher.clause).Nodup := by
  have distinct := placed.distinct failed.negate
  rw [Function.update_self] at distinct
  exact List.nodup_cons.mp ((List.perm_middle.map Watcher.clause).nodup_iff.mp distinct)

/-- The list that the watcher enters has not had its clause before. -/
private theorem entered_absent
    (placed : Placed db attached (Function.update lists failed.negate (done ++ watcher :: rest)))
    (rewatches : db.Rewatches db' watcher.clause first failed found) :
    watcher.clause ∉ (lists found.negate).map Watcher.clause := by
  have separate : found.negate ≠ failed.negate :=
    fun same => rewatches.foundNe (Lit.negate_injective same)
  have watched := placed.watched found.negate watcher.clause
  rw [Function.update_of_ne separate, found.negate_negate, rewatches.before] at watched
  rw [watched]
  rintro ⟨-, same | same⟩
  · exact rewatches.foundNeFirst same
  · exact rewatches.foundNe same

private theorem distinct_moved
    (placed : Placed db attached (Function.update lists failed.negate (done ++ watcher :: rest)))
    (rewatches : db.Rewatches db' watcher.clause first failed found) (l : Lit) :
    ((movedLists lists failed found (done ++ rest) ⟨watcher.clause, first⟩ l).map
      Watcher.clause).Nodup := by
  refine movedLists_cases (fun _ watchers => (watchers.map Watcher.clause).Nodup)
    placed.left_distinct.2 (fun separate => ?_) (fun l left _ => ?_) l
  · have distinct := placed.distinct found.negate
    rw [Function.update_of_ne separate] at distinct
    rw [List.map_append, List.map_singleton]
    exact List.nodup_append.mpr ⟨distinct, List.pairwise_singleton _ _, by
      simpa using placed.entered_absent rewatches⟩
  · have distinct := placed.distinct l
    rwa [Function.update_of_ne left] at distinct

/-- The clause of the watcher is in the lists of the literals that it watches now. -/
private theorem mem_moved_self
    (placed : Placed db attached (Function.update lists failed.negate (done ++ watcher :: rest)))
    (rewatches : db.Rewatches db' watcher.clause first failed found) (l : Lit) :
    watcher.clause ∈ (movedLists lists failed found (done ++ rest) ⟨watcher.clause, first⟩ l).map
        Watcher.clause ↔ watcher.clause ∈ attached ∧ (l.negate = first ∨ l.negate = found) := by
  refine movedLists_cases (fun l watchers => watcher.clause ∈ watchers.map Watcher.clause ↔
    watcher.clause ∈ attached ∧ (l.negate = first ∨ l.negate = found)) ?_ (fun _ => ?_)
    (fun l left entered => ?_) l
  · rw [Lit.negate_negate]
    refine iff_of_false placed.left_distinct.1 ?_
    rintro ⟨-, same | same⟩
    · exact rewatches.firstNe same.symm
    · exact rewatches.foundNe same.symm
  · have isAttached := ((placed.watched failed.negate watcher.clause).mp (by simp)).1
    simp [isAttached]
  · have watched := placed.watched l watcher.clause
    rw [Function.update_of_ne left, rewatches.before] at watched
    have notFailed : l.negate ≠ failed := fun same => left (by rw [← same, l.negate_negate])
    have notFound : l.negate ≠ found := fun same => entered (by rw [← same, l.negate_negate])
    simpa [notFailed, notFound] using watched

private theorem watched_moved
    (placed : Placed db attached (Function.update lists failed.negate (done ++ watcher :: rest)))
    (rewatches : db.Rewatches db' watcher.clause first failed found) (l : Lit) (id : Nat) :
    id ∈ (movedLists lists failed found (done ++ rest) ⟨watcher.clause, first⟩ l).map Watcher.clause ↔
      id ∈ attached ∧ db'.Watches id l.negate := by
  by_cases moved : id = watcher.clause
  · subst moved
    rw [rewatches.after]
    exact placed.mem_moved_self rewatches l
  · rw [Database.Watches.congr (rewatches.others id moved), ← placed.watched]
    exact mem_moved_of_ne moved l

private theorem blocked_moved
    (placed : Placed db attached (Function.update lists failed.negate (done ++ watcher :: rest)))
    (rewatches : db.Rewatches db' watcher.clause first failed found) (l : Lit) :
    ∀ w ∈ movedLists lists failed found (done ++ rest) ⟨watcher.clause, first⟩ l,
      w.blocker ∈ db'.litsOf w.clause := by
  simp only [rewatches.reordered.mem_iff]
  refine movedLists_cases (fun _ watchers => ∀ w ∈ watchers, w.blocker ∈ db.litsOf w.clause)
    (fun w listed => ?_) (fun separate w listed => ?_) (fun l left _ w listed => ?_) l
  · have blocked := placed.blocked failed.negate w
    rw [Function.update_self] at blocked
    simp only [List.mem_append, List.mem_cons] at listed blocked
    exact blocked (listed.imp_right .inr)
  · rcases List.mem_append.mp listed with listed | listed
    · have blocked := placed.blocked found.negate w
      rw [Function.update_of_ne separate] at blocked
      exact blocked listed
    · obtain rfl := List.mem_singleton.mp listed
      exact ((rewatches.before first).mpr (.inl rfl)).mem
  · have blocked := placed.blocked l w
    rw [Function.update_of_ne left] at blocked
    exact blocked listed

/-- A clause that watches another literal instead of the failed one has its watcher moved from one
list to the other. -/
theorem move
    (placed : Placed db attached (Function.update lists failed.negate (done ++ watcher :: rest)))
    (rewatches : db.Rewatches db' watcher.clause first failed found) :
    Placed db' attached (movedLists lists failed found (done ++ rest) ⟨watcher.clause, first⟩) where
  distinct := placed.distinct_moved rewatches
  watched := placed.watched_moved rewatches
  blocked := placed.blocked_moved rewatches

end Placed

namespace Apart

/-- The order of the watchers in a list makes no difference. -/
theorem perm {lists' : Lit → List Watcher} (apart : Apart lists)
    (perm : ∀ l, (lists l).Perm (lists' l)) : Apart lists' :=
  fun l w listed => apart l w ((perm l).mem_iff.mpr listed)

theorem reblock (apart : Apart (Function.update lists failed.negate (done ++ watcher :: rest)))
    (differs : first ≠ failed) :
    Apart (Function.update lists failed.negate
      (done ++ { watcher with blocker := first } :: rest)) := by
  intro l w listed
  have before := apart l w
  by_cases here : l = failed.negate
  · subst here
    simp only [Function.update_self, List.mem_append, List.mem_cons] at listed before
    rcases listed with listed | rfl | listed
    · exact before (.inl listed)
    · simpa using differs
    · exact before (.inr (.inr listed))
  · rw [Function.update_of_ne here] at listed before
    exact before listed

theorem move (apart : Apart (Function.update lists failed.negate (done ++ watcher :: rest)))
    (foundNeFirst : found ≠ first) :
    Apart (movedLists lists failed found (done ++ rest) ⟨id, first⟩) := by
  refine movedLists_cases (fun l watchers => ∀ w ∈ watchers, w.blocker ≠ l.negate)
    (fun w listed => ?_) (fun separate w listed => ?_) fun l left _ w listed => ?_
  · have differs := apart failed.negate w
    rw [Function.update_self] at differs
    simp only [List.mem_append, List.mem_cons] at listed differs
    exact differs (listed.imp_right .inr)
  · rcases List.mem_append.mp listed with listed | listed
    · have differs := apart found.negate w
      rw [Function.update_of_ne separate] at differs
      exact differs listed
    · obtain rfl := List.mem_singleton.mp listed
      simpa using foundNeFirst.symm
  · have differs := apart l w
    rw [Function.update_of_ne left] at differs
    exact differs listed

end Apart

end Changes

end ClauseLearning
