import ClauseLearning.Proofs.Propagation.Watching
import ClauseLearning.Proofs.Propagation.Workspace
import ClauseLearning.Propagation.Watched

/-! # Visiting a clause that watches a failed literal

A visit leaves the watch lists right: either the clause watches a literal that does not fail instead,
and its watcher has moved to another list, or all literals but the other watched one fail, and the
clause is satisfied, forces that literal, or is falsified. What a later visit and a return to a lower
level rely on is that no clause starts to watch a literal that fails.
-/

namespace ClauseLearning

variable {σ : Type}

/-- The frame of following watch lists from any orderly state: the workspace advances and stays orderly,
and grounded if it was, the table stays large enough, and no clause starts to watch a literal that failed
before. -/
structure WatchedWorkspace.Tended (state state' : WatchedWorkspace σ) : Prop where
  orderly : state'.work.Orderly
  advanced : state.work.Advanced state'.work
  grounds : Grounded state.work.db state.work.trail.stack →
    Grounded state'.work.db state'.work.trail.stack
  covers : state'.watches.Covers state'.work.trail.varCount
  rewatched : ∀ id l, state'.work.db.Watches id l →
    state.work.db.Watches id l ∨ ¬ l.FailsOn state.work.trail.stack

structure WatchedWorkspace.Followed (state state' : WatchedWorkspace σ) : Prop where
  sound : state'.work.Sound
  advanced : state.work.Advanced state'.work
  covers : state'.watches.Covers state'.work.trail.varCount
  rewatched : ∀ id l, state'.work.db.Watches id l →
    state.work.db.Watches id l ∨ ¬ l.FailsOn state.work.trail.stack

def Visit.state : Visit σ → WatchedWorkspace σ
  | .kept _ state | .moved state | .falsified _ state => state

/-- What a visit leaves in the list that its watcher was taken from. -/
def Visit.left : Visit σ → List Watcher
  | .kept watcher _ | .falsified watcher _ => [watcher]
  | .moved _ => []

/-- The clause that a visit found falsified, if it did. -/
def Visit.conflict : Visit σ → Option Nat
  | .falsified watcher _ => some watcher.clause
  | .kept _ _ | .moved _ => none

namespace WatchedWorkspace.Tended
variable {state state' state'' : WatchedWorkspace σ}

theorem refl (orderly : state.work.Orderly)
    (covers : state.watches.Covers state.work.trail.varCount) : state.Tended state :=
  ⟨orderly, .refl _, id, covers, fun _ _ => .inl⟩

theorem trans (first : state.Tended state') (second : state'.Tended state'') :
    state.Tended state'' := by
  refine ⟨second.orderly, first.advanced.trans second.advanced,
    fun grounded => second.grounds (first.grounds grounded), second.covers, ?_⟩
  intro id l watches
  rcases second.rewatched id l watches with before | notFails
  · exact first.rewatched id l before
  · exact .inr fun fails => notFails (fails.mono first.advanced.subset)

theorem followed (tended : state.Tended state') (sound : state.work.Sound) : state.Followed state' :=
  ⟨tended.orderly.sound (tended.grounds sound.grounded), tended.advanced, tended.covers,
    tended.rewatched⟩

end WatchedWorkspace.Tended

section Orient
variable {db : Database} {id : Nat} {failed first : Lit} {rest lits : List Lit}

/-- The clause watches the failed literal and another one, and has the given literals besides. -/
structure Oriented (db : Database) (id : Nat) (failed first : Lit) (rest : List Lit) : Prop where
  inBounds : id < db.size
  watches : ∀ l, db.Watches id l ↔ l = first ∨ l = failed
  perm : (first :: failed :: rest).Perm (db.litsOf id)

/-- A clause visited through a literal that it watches can be oriented. -/
theorem Database.Watches.orient_yields (watches : db.Watches id failed) :
    Yields (orient failed (db.litsOf id)) fun (first, rest) => Oriented db id failed first rest := by
  have inBounds := lt_size_of_mem watches.mem
  obtain ⟨first, second, rest, same, watched⟩ := watches
  have pair := fun l => Database.watches_iff_of_eq (l := l) same
  rw [same, orient]
  split
  · rename_i here
    subst here
    refine yields_pure_iff.mpr ⟨inBounds, fun l => (pair l).trans or_comm, ?_⟩
    rw [same]
    exact .swap ..
  · rename_i differs
    obtain rfl : failed = second := watched.resolve_left fun same => differs same.symm
    rw [if_pos rfl]
    exact yields_pure_iff.mpr ⟨inBounds, pair, same ▸ .refl _⟩

namespace Oriented

theorem member (oriented : Oriented db id failed first rest) : first ∈ db.litsOf id :=
  oriented.perm.mem_iff.mp (List.mem_cons_self ..)

theorem mem_of_mem_rest (oriented : Oriented db id failed first rest) {l : Lit} (listed : l ∈ rest) :
    l ∈ db.litsOf id :=
  oriented.perm.mem_iff.mp (List.mem_cons_of_mem _ (List.mem_cons_of_mem _ listed))

/-- The literals of the clause are the two watched ones and the rest. -/
theorem cases (oriented : Oriented db id failed first rest) {l : Lit} (listed : l ∈ db.litsOf id) :
    l = first ∨ l = failed ∨ l ∈ rest := by
  simpa using oriented.perm.mem_iff.mpr listed

theorem ne (oriented : Oriented db id failed first rest) (distinct : (db.litsOf id).Nodup) :
    first ≠ failed := by
  rintro rfl
  have apart := (List.nodup_cons.mp (oriented.perm.nodup_iff.mpr distinct)).1
  exact apart (List.mem_cons_self ..)

end Oriented

end Orient

section Replacement
variable {t : Trail}

/-- The literal found does not fail, and the substitute has its place; if none is found, all fail. -/
theorem Trail.Coherent.replaceUnfailing_yields (coherent : t.Coherent) (substitute : Lit)
    {rest : List Lit} (inRange : ∀ l ∈ rest, l.var < t.varCount) :
    Yields (replaceUnfailing t substitute rest) fun
      | none => ∀ l ∈ rest, l.FailsOn t.stack
      | some (found, rest') => ¬ found.FailsOn t.stack ∧
          (found :: rest').Perm (substitute :: rest) := by
  induction rest with
  | nil => exact yields_pure_iff.mpr (by simp)
  | cons l rest ih =>
    rw [replaceUnfailing, coherent.valueOf_eq (inRange l (List.mem_cons_self ..)), ok_bind]
    split
    · rename_i unfailing
      refine yields_pure_iff.mpr ⟨?_, .swap ..⟩
      exact fun fails => unfailing (coherent.stacked.truthOn_eq_fails_iff.mpr fails)
    · rename_i failing
      have fails := coherent.stacked.truthOn_eq_fails_iff.mp (not_not.mp failing)
      apply (ih fun other member => inRange other (List.mem_cons_of_mem _ member)).bind
      rintro (_ | ⟨found, rest'⟩) replaced
      · apply yields_pure_iff.mpr
        intro other member
        rcases List.mem_cons.mp member with rfl | member
        · exact fails
        · exact replaced other member
      · obtain ⟨unfailing, perm⟩ := replaced
        refine yields_pure_iff.mpr ⟨unfailing, ?_⟩
        exact (List.Perm.swap l found rest').trans ((perm.cons l).trans (.swap ..))

/-- No new watch is found only if the other watched literal holds or all remaining ones fail. -/
theorem Trail.Coherent.newWatch_yields (coherent : t.Coherent) (failed first : Lit)
    {rest : List Lit} (inRange : ∀ l ∈ rest, l.var < t.varCount) :
    Yields (newWatch t failed (first.truthOn t.stack) rest) fun
      | none => first.HoldsOn t.stack ∨ ∀ l ∈ rest, l.FailsOn t.stack
      | some (found, rest') => ¬ found.FailsOn t.stack ∧
          (found :: rest').Perm (failed :: rest) := by
  rw [newWatch]
  split
  · rename_i holds
    exact yields_pure_iff.mpr (.inl (coherent.stacked.truthOn_eq_holds_iff.mp holds))
  · apply (coherent.replaceUnfailing_yields failed inRange).imp
    rintro (_ | ⟨found, rest'⟩) replaced
    · exact .inr replaced
    · exact replaced

end Replacement

namespace WatchedWorkspace

/-- What holds after the visit of a watcher that had others before and after it in the list of the
negation of the failed literal, if some clauses are attached. -/
structure Attended (state : WatchedWorkspace σ) (attached : Set Nat) (failed : Lit)
    (done : List Watcher) (watcher : Watcher) (rest : List Watcher) (visit : Visit σ) : Prop where
  tended : state.Tended visit.state
  cursor_eq : visit.state.work.trail.cursor = state.work.trail.cursor
  placed : Placed visit.state.work.db attached
    (Function.update visit.state.watches.listOf failed.negate (done ++ visit.left ++ rest))
  apart : Apart (Function.update state.watches.listOf failed.negate (done ++ watcher :: rest)) →
    Apart (Function.update visit.state.watches.listOf failed.negate (done ++ visit.left ++ rest))
  /-- If the clause watches the failed literal still, some literal of it holds. -/
  guarded : visit.conflict = none → visit.state.work.db.Watches watcher.clause failed →
    visit.state.work.db.MetOn watcher.clause visit.state.work.trail.stack
  falsified : ∀ id, visit.conflict = some id → visit.state.work.Falsified id

/-- What holds after the visit of a watcher if all clauses are attached. -/
structure Visited (state : WatchedWorkspace σ) (failed : Lit) (done : List Watcher)
    (watcher : Watcher) (rest : List Watcher) (visit : Visit σ) : Prop where
  followed : state.Followed visit.state
  cursor_eq : visit.state.work.trail.cursor = state.work.trail.cursor
  watching : Watching visit.state.work.db
    (Function.update visit.state.watches.listOf failed.negate (done ++ visit.left ++ rest))
  /-- If the clause watches the failed literal still, some literal of it holds. -/
  guarded : visit.conflict = none → visit.state.work.db.Watches watcher.clause failed →
    visit.state.work.db.MetOn watcher.clause visit.state.work.trail.stack
  falsified : ∀ id, visit.conflict = some id → visit.state.work.Falsified id

section Visit
variable {watches : WatchTable} {work : Workspace σ} {attached : Set Nat} {failed first found : Lit}
  {lits rest' : List Lit} {done rest : List Watcher} {watcher : Watcher}

/-- The clause of the watcher has the failed literal in the second place, nothing besides has changed but
the blocker, and either the first literal holds or all others fail. -/
private structure Turned (watches : WatchTable) (work work' : Workspace σ) (attached : Set Nat)
    (failed first : Lit) (done : List Watcher) (watcher : Watcher) (rest : List Watcher) : Prop where
  tended : Tended ⟨watches, work⟩ ⟨watches, work'⟩
  trail_eq : work'.trail = work.trail
  placed : Placed work'.db attached
    (Function.update watches.listOf failed.negate (done ++ { watcher with blocker := first } :: rest))
  apart : Apart (Function.update watches.listOf failed.negate (done ++ watcher :: rest)) →
    Apart (Function.update watches.listOf failed.negate
      (done ++ { watcher with blocker := first } :: rest))
  member : first ∈ work'.db.litsOf watcher.clause
  others : first.HoldsOn work.trail.stack ∨
    ∀ l ∈ work'.db.litsOf watcher.clause, l ≠ first → l.FailsOn work.trail.stack

/-- Turning the failed literal of a clause to the second place changes no watch. -/
private theorem turned_reorder (orderly : work.Orderly) (covers : watches.Covers work.trail.varCount)
    (oriented : Oriented work.db watcher.clause failed first lits)
    (placed : Placed work.db attached
      (Function.update watches.listOf failed.negate (done ++ watcher :: rest)))
    (fails : failed.FailsOn work.trail.stack)
    (unreplaced : first.HoldsOn work.trail.stack ∨ ∀ l ∈ lits, l.FailsOn work.trail.stack) :
    Turned watches work (work.reorder watcher.clause (first :: failed :: lits)) attached failed first
      done watcher rest := by
  obtain ⟨orderly', advanced⟩ := orderly.reorder oriented.inBounds oriented.perm
  have same : ∀ id l, (work.reorder watcher.clause (first :: failed :: lits)).db.Watches id l ↔
      work.db.Watches id l := by
    intro id l
    by_cases here : id = watcher.clause
    · rw [here, oriented.watches]
      exact Database.watches_iff_of_eq (Database.litsOf_reorder_self oriented.inBounds)
    · exact Database.Watches.congr (Database.litsOf_reorder_ne here)
  refine ⟨⟨orderly', advanced, fun grounded => grounded.reordered advanced.reordered, covers,
    fun id l watches => .inl ((same id l).mp watches)⟩, rfl,
    (placed.reblock oriented.member).reordered advanced.reordered same,
    fun apart => apart.reblock (oriented.ne (orderly.wellFormed.nodup watcher.clause)),
    advanced.reordered.mem_iff.mpr oriented.member, unreplaced.imp_right fun rest l listed differs => ?_⟩
  rcases oriented.cases (advanced.reordered.mem_iff.mp listed) with rfl | rfl | listed
  · exact (differs rfl).elim
  · exact fails
  · exact rest l listed

namespace Turned
variable {work' : Workspace σ}

/-- The first literal holds, so the watcher stays. -/
private theorem attended_satisfied
    (turned : Turned watches work work' attached failed first done watcher rest)
    (holds : first.HoldsOn work.trail.stack) :
    Attended ⟨watches, work⟩ attached failed done watcher rest
      (.kept { watcher with blocker := first } ⟨watches, work'⟩) := by
  refine ⟨turned.tended, congrArg Trail.cursor turned.trail_eq, ?_, ?_, ?_, by simp [Visit.conflict]⟩
  · simpa [Visit.left, Visit.state] using turned.placed
  · simpa [Visit.left, Visit.state] using turned.apart
  · intro _ _
    refine ⟨first, turned.member, ?_⟩
    simpa [Visit.state, turned.trail_eq] using holds

/-- The first literal is open and all others fail, so it is implied and the watcher stays. -/
private theorem attended_forced [Tracer σ]
    (turned : Turned watches work work' attached failed first done watcher rest)
    (isOpen : first.OpenOn work.trail.stack) :
    Yields (work'.imply first watcher.clause) fun work'' =>
      Attended ⟨watches, work⟩ attached failed done watcher rest
        (.kept { watcher with blocker := first } ⟨watches, work''⟩) := by
  have otherFails := turned.others.resolve_left isOpen.1
  have orderly := turned.tended.orderly
  rw [← turned.trail_eq] at isOpen otherFails
  have inRange := orderly.wellFormed.inRange watcher.clause first turned.member
  have inBounds := Database.lt_size_of_mem turned.member
  apply (orderly.imply_yields inRange isOpen inBounds).imp
  rintro work'' ⟨orderly', advanced, dbEq, stackEq, cursorEq⟩
  have implied : Tended ⟨watches, work'⟩ ⟨watches, work''⟩ := by
    refine ⟨orderly', advanced, fun grounded => ?_, advanced.varCount_eq ▸ turned.tended.covers,
      fun id l watched => .inl (dbEq ▸ watched)⟩
    change Grounded work''.db work''.trail.stack
    rw [dbEq, stackEq]
    exact grounded.implied _ turned.member otherFails
  refine ⟨turned.tended.trans implied, cursorEq.trans (congrArg Trail.cursor turned.trail_eq), ?_, ?_, ?_,
    by simp [Visit.conflict]⟩
  · simpa [Visit.left, Visit.state, dbEq] using turned.placed
  · simpa [Visit.left, Visit.state] using turned.apart
  · intro _ _
    refine ⟨first, ?_, ?_⟩
    · simpa [Visit.state, dbEq] using turned.member
    · simp [Visit.state, stackEq]

/-- All literals fail, and the watcher stays. -/
private theorem attended_falsified
    (turned : Turned watches work work' attached failed first done watcher rest)
    (firstFails : first.FailsOn work.trail.stack) (notHolds : ¬ first.HoldsOn work.trail.stack) :
    Attended ⟨watches, work⟩ attached failed done watcher rest
      (.falsified { watcher with blocker := first } ⟨watches, work'⟩) := by
  refine ⟨turned.tended, congrArg Trail.cursor turned.trail_eq, ?_, ?_, by simp [Visit.conflict], ?_⟩
  · simpa [Visit.left, Visit.state] using turned.placed
  · simpa [Visit.left, Visit.state] using turned.apart
  · rintro _ ⟨⟩
    refine ⟨Database.lt_size_of_mem turned.member, fun l listed => ?_⟩
    simp only [Visit.state, turned.trail_eq]
    by_cases here : l = first
    · exact here ▸ firstFails
    · exact turned.others.resolve_left notHolds l listed here

end Turned

/-- A clause with another literal that does not fail watches that one instead. -/
private theorem attended_moved (orderly : work.Orderly) (covers : watches.Covers work.trail.varCount)
    (oriented : Oriented work.db watcher.clause failed first lits)
    (placed : Placed work.db attached
      (Function.update watches.listOf failed.negate (done ++ watcher :: rest)))
    (fails : failed.FailsOn work.trail.stack) (unfailing : ¬ found.FailsOn work.trail.stack)
    (perm : (found :: rest').Perm (failed :: lits)) :
    Yields (watches.watch found watcher.clause first) fun watches' =>
      Attended ⟨watches, work⟩ attached failed done watcher rest
        (.moved ⟨watches', work.reorder watcher.clause (first :: found :: rest')⟩) := by
  have permAll := (perm.cons first).trans oriented.perm
  obtain ⟨orderly', advanced⟩ := orderly.reorder oriented.inBounds permAll
  have distinct := permAll.nodup_iff.mpr (orderly.wellFormed.nodup watcher.clause)
  have rewatches : work.db.Rewatches (work.reorder watcher.clause (first :: found :: rest')).db
      watcher.clause first failed found :=
    { before := oriented.watches
      after := fun l => Database.watches_iff_of_eq (Database.litsOf_reorder_self oriented.inBounds)
      others := fun id differs => Database.litsOf_reorder_ne differs
      reordered := advanced.reordered
      firstNe := oriented.ne (orderly.wellFormed.nodup watcher.clause)
      foundNe := by
        rintro rfl
        exact unfailing fails
      foundNeFirst := by
        rintro rfl
        exact (List.nodup_cons.mp distinct).1 (List.mem_cons_self ..) }
  have member : found ∈ work.db.litsOf watcher.clause :=
    permAll.mem_iff.mp (List.mem_cons_of_mem _ (List.mem_cons_self ..))
  have inRange := orderly.wellFormed.inRange watcher.clause found member
  apply (WatchTable.watch_yields covers inRange watcher.clause first).imp
  rintro watches' ⟨covers', lists⟩
  refine ⟨⟨orderly', advanced, fun grounded => grounded.reordered advanced.reordered, covers', ?_⟩,
    rfl, ?_, ?_, ?_, by simp [Visit.conflict]⟩
  · intro id l watched
    by_cases here : id = watcher.clause
    · rw [here] at watched ⊢
      rcases (rewatches.after l).mp watched with rfl | rfl
      · exact .inl ((oriented.watches _).mpr (.inl rfl))
      · exact .inr unfailing
    · exact .inl ((Database.Watches.congr (rewatches.others id here)).mp watched)
  · simp only [Visit.state, Visit.left, List.append_nil, lists]
    exact placed.move rewatches
  · simp only [Visit.state, Visit.left, List.append_nil, lists]
    exact fun apart => apart.move rewatches.foundNeFirst
  · intro _ watched
    rcases (rewatches.after failed).mp watched with same | same
    · exact (rewatches.firstNe same.symm).elim
    · exact (rewatches.foundNe same.symm).elim

variable [Tracer σ]

/-- A visit keeps the watchers in place and leaves no clause unguarded that it does not report. -/
theorem visit_tends (orderly : work.Orderly) (covers : watches.Covers work.trail.varCount)
    (fails : failed.FailsOn work.trail.stack)
    (placed : Placed work.db attached
      (Function.update watches.listOf failed.negate (done ++ watcher :: rest))) :
    Yields (visit ⟨watches, work⟩ failed watcher)
      (Attended ⟨watches, work⟩ attached failed done watcher rest) := by
  have listed : watcher ∈ Function.update watches.listOf failed.negate (done ++ watcher :: rest)
      failed.negate := by simp
  have watched : work.db.Watches watcher.clause failed := by
    have member := ((placed.watched _ watcher.clause).mp (List.mem_map_of_mem listed)).2
    rwa [failed.negate_negate] at member
  have blocker := placed.blocked _ watcher listed
  have coherent := orderly.coherent
  have inRange := fun l => orderly.wellFormed.inRange watcher.clause l
  simp only [visit, coherent.valueOf_eq (inRange _ blocker), ok_bind]
  split
  · rename_i holds
    refine yields_pure_iff.mpr ⟨.refl orderly covers, rfl, ?_, ?_, ?_, by simp [Visit.conflict]⟩
    · simpa [Visit.left, Visit.state] using placed
    · simp [Visit.left, Visit.state]
    · exact fun _ _ => ⟨_, blocker, coherent.stacked.truthOn_eq_holds_iff.mp holds⟩
  apply (Database.clause_yields (Database.lt_size_of_mem blocker)).bind
  intro clause same
  rw [same]
  refine watched.orient_yields.bind ?_
  rintro ⟨first, lits⟩ oriented
  simp only [coherent.valueOf_eq (inRange _ oriented.member), ok_bind]
  apply (coherent.newWatch_yields failed first fun l listed =>
    inRange l (oriented.mem_of_mem_rest listed)).bind
  rintro (_ | ⟨found, rest'⟩) replaced
  · have turned := turned_reorder orderly covers oriented placed fails replaced
    simp only
    split
    · rename_i holds
      exact yields_pure_iff.mpr
        (turned.attended_satisfied (coherent.stacked.truthOn_eq_holds_iff.mp holds))
    · rename_i unknown
      apply (turned.attended_forced (truthOn_eq_unknown_iff.mp unknown)).bind
      intro work' attended
      exact yields_pure_iff.mpr attended
    · rename_i failing
      have firstFails := coherent.stacked.truthOn_eq_fails_iff.mp failing
      exact yields_pure_iff.mpr (turned.attended_falsified firstFails fun holds =>
        coherent.stacked.not_fails_of_holds holds firstFails)
  · apply (attended_moved orderly covers oriented placed fails replaced.1 replaced.2).bind
    intro watches' attended
    exact yields_pure_iff.mpr attended

/-- A visit keeps the watch lists right and leaves no clause unguarded that it does not report. -/
theorem visit_yields (sound : work.Sound) (covers : watches.Covers work.trail.varCount)
    (fails : failed.FailsOn work.trail.stack)
    (watching : Watching work.db
      (Function.update watches.listOf failed.negate (done ++ watcher :: rest))) :
    Yields (visit ⟨watches, work⟩ failed watcher)
      (Visited ⟨watches, work⟩ failed done watcher rest) :=
  (visit_tends sound.orderly covers fails watching.placed).imp fun _ attended =>
    ⟨attended.tended.followed sound, attended.cursor_eq,
      attended.placed.watching (attended.apart watching.apart), attended.guarded, attended.falsified⟩

end Visit

end WatchedWorkspace

end ClauseLearning
