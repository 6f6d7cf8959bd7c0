import ClauseLearning.Proofs.Propagation.Propagator

/-! # What makes propagation ready

Propagation is called after a decision, after a clause has been learned and, at first, after loading.
A decision leaves the levels below it closed. A learned clause is attached once the search has gone
back: its first literal is open there, its others fail, and its second one became false at the current
level, so watching these two guards every level below.
-/

namespace ClauseLearning

/-- A clause whose first literal is open while all others fail, the second one since the current
level. -/
structure Asserting (stack : List Assignment) (first : Lit) (rest : List Lit) : Prop where
  distinct : (first :: rest).Nodup
  isOpen : first.OpenOn stack
  fails : ∀ l ∈ rest, l.FailsOn stack
  bottom : rest = [] → height stack = 0
  latest : ∀ second others, rest = second :: others →
    ∀ k < height stack, second.OpenOn (cut k stack)

/-- On every lower level the first two literals of an asserting clause are open. -/
theorem Asserting.settled_cut {stack : List Assignment} {first : Lit} {rest : List Lit}
    (asserting : Asserting stack first rest) {k : Nat} (below : k < height stack) :
    Settled (cut k stack) (first :: rest) := by
  cases rest with
  | nil =>
    have bottom := asserting.bottom rfl
    omega
  | cons second others =>
    have differ : first ≠ second := by
      rintro rfl
      exact (List.nodup_cons.mp asserting.distinct).1 (List.mem_cons_self ..)
    exact .inr ⟨first, by simp, second, by simp, differ, asserting.isOpen.anti (cut_subset k stack),
      asserting.latest second others rfl k below⟩

/-- The literals of an asserting clause include no clause that is settled. -/
theorem Asserting.not_subset {stack : List Assignment} {first : Lit} {rest lits : List Lit}
    (asserting : Asserting stack first rest) (stacked : Stacked stack) (settled : Settled stack lits) :
    ¬ lits ⊆ first :: rest := fun included =>
  settled.not_unit stacked asserting.isOpen fun _ member differs =>
    asserting.fails _ ((List.mem_cons.mp (included member)).resolve_left differs)

/-- An asserting clause is no tautology. -/
theorem Asserting.negate_not_mem {stack : List Assignment} {first l : Lit} {rest : List Lit}
    (asserting : Asserting stack first rest) (stacked : Stacked stack) (member : l ∈ first :: rest) :
    l.negate ∉ first :: rest := by
  intro negated
  rcases List.mem_cons.mp member with rfl | failing
  · have failing' := (List.mem_cons.mp negated).resolve_left l.negate_ne
    exact asserting.isOpen.1 (failsOn_negate_iff.mp (asserting.fails _ failing'))
  · rcases List.mem_cons.mp negated with same | failing'
    · refine asserting.isOpen.1 ?_
      rw [← same]
      exact asserting.fails l failing
    · have holds := failsOn_negate_iff.mp (asserting.fails _ failing')
      exact stacked.not_fails_of_holds holds (asserting.fails l failing)

/-- The watchers of a clause for two of its literals, each with the other as blocker. -/
def pairWatchers (id : Nat) (first second l : Lit) : List Watcher :=
  if l = first.negate then [⟨id, second⟩]
  else if l = second.negate then [⟨id, first⟩]
  else []

section Pair
variable {id : Nat} {first second l : Lit} {w : Watcher}

theorem mem_pairWatchers_iff : w ∈ pairWatchers id first second l ↔
    (l = first.negate ∧ w = ⟨id, second⟩) ∨
      (l ≠ first.negate ∧ l = second.negate ∧ w = ⟨id, first⟩) := by
  unfold pairWatchers
  split
  · rename_i here
    simp [here]
  · rename_i here
    split
    · rename_i there
      subst there
      simp [here]
    · rename_i there
      simp [here, there]

theorem length_pairWatchers_le : (pairWatchers id first second l).length ≤ 1 := by
  unfold pairWatchers
  split
  · simp
  · split <;> simp

theorem pairWatchers_ne_nil_iff :
    pairWatchers id first second l ≠ [] ↔ l.negate = first ∨ l.negate = second := by
  have turned : ∀ other : Lit, l.negate = other ↔ l = other.negate := fun other =>
    ⟨fun same => by rw [← same, l.negate_negate], fun same => by rw [same, other.negate_negate]⟩
  rw [turned, turned, pairWatchers]
  split
  · simp [*]
  · split <;> simp [*]

end Pair

section Watching
variable {db db' : Database} {lits : List Lit}

/-- The lists stay right when watchers of the new clause are appended to those of the literals that it
watches. -/
theorem Watching.append {lists : Lit → List Watcher} (watching : Watching db lists)
    (extended : db.Extended lits db') (added : Lit → List Watcher)
    (new : ∀ l, ∀ w ∈ added l,
      w.clause = db.size ∧ w.blocker ∈ lits ∧ w.blocker ≠ l.negate)
    (single : ∀ l, (added l).length ≤ 1)
    (watched : ∀ l, added l ≠ [] ↔ db'.Watches db.size l.negate) :
    Watching db' fun l => lists l ++ added l := by
  have newIds : ∀ {l : Lit} {id : Nat}, id ∈ (added l).map Watcher.clause → id = db.size := by
    intro l id listed
    obtain ⟨w, member, rfl⟩ := List.mem_map.mp listed
    exact (new l w member).1
  have oldIds : ∀ {l : Lit} {id : Nat}, id ∈ (lists l).map Watcher.clause → id < db.size :=
    fun listed => Database.lt_size_of_mem ((watching.watched _ _).mp listed).mem
  refine ⟨?_, ?_, ?_⟩
  · intro l
    rw [List.map_append]
    refine List.nodup_append.mpr ⟨watching.distinct l, ?_, ?_⟩
    · match same : added l with
      | [] => exact .nil
      | [w] => exact List.pairwise_singleton _ _
      | w :: w' :: _ =>
        have short := single l
        simp only [same, List.length_cons] at short
        omega
    · intro id old id' listed same
      have bound := oldIds old
      have number := newIds listed
      omega
  · intro l id
    rw [List.map_append, List.mem_append]
    by_cases here : id = db.size
    · subst here
      rw [← watched l]
      constructor
      · rintro (old | listed)
        · have bound := oldIds old
          omega
        · intro empty
          simp [empty] at listed
      · intro nonempty
        obtain ⟨w, member⟩ := List.exists_mem_of_ne_nil _ nonempty
        exact .inr (List.mem_map.mpr ⟨w, member, (new l w member).1⟩)
    · rw [Database.Watches.congr (extended.litsOf_old id here), ← watching.watched l id]
      exact or_iff_left fun listed => here (newIds listed)
  · intro l w listed
    rcases List.mem_append.mp listed with old | added
    · obtain ⟨member, differs⟩ := watching.blocked l w old
      rw [extended.litsOf_of_lt (Database.lt_size_of_mem member)]
      exact ⟨member, differs⟩
    · obtain ⟨number, member, differs⟩ := new l w added
      rw [number, extended.litsOf_new]
      exact ⟨member, differs⟩

/-- Watching the first two literals of a new clause keeps the lists right. -/
theorem WatchTable.watchFirstTwo_yields {table : WatchTable} {vars : Nat}
    (covers : table.Covers vars) (watching : Watching db table.listOf)
    (extended : db.Extended lits db') (distinct : lits.Nodup)
    (inRange : ∀ l ∈ lits, l.var < vars) :
    Yields (table.watchFirstTwo db.size lits) fun table' =>
      table'.Covers vars ∧ Watching db' table'.listOf := by
  have new := extended.litsOf_new
  have unwatched : (∀ first second rest, lits ≠ first :: second :: rest) →
      Watching db' table.listOf := by
    intro short
    have unwatching : ∀ l, ¬ db'.Watches db.size l := by
      rintro l ⟨first, second, rest, same, -⟩
      exact short first second rest (new ▸ same)
    simpa using watching.append extended (fun _ => []) (by simp) (by simp)
      (fun l => by simpa using unwatching l.negate)
  match lits, extended, distinct, inRange, new, unwatched with
  | [], _, _, _, _, unwatched => exact yields_pure_iff.mpr ⟨covers, unwatched (by simp)⟩
  | [_], _, _, _, _, unwatched => exact yields_pure_iff.mpr ⟨covers, unwatched (by simp)⟩
  | first :: second :: rest, extended, distinct, inRange, new, _ =>
    have differ : first ≠ second := by
      rintro rfl
      exact (List.nodup_cons.mp distinct).1 (List.mem_cons_self ..)
    have apart : second.negate ≠ first.negate := fun same => differ (Lit.negate_injective same).symm
    rw [watchFirstTwo]
    apply (watch_yields covers (inRange first (by simp)) db.size second).bind
    rintro table₁ ⟨covers₁, lists₁⟩
    apply (watch_yields covers₁ (inRange second (by simp)) db.size first).imp
    rintro table₂ ⟨covers₂, lists₂⟩
    refine ⟨covers₂, ?_⟩
    have lists : table₂.listOf =
        fun l => table.listOf l ++ pairWatchers db.size first second l := by
      funext l
      rw [lists₂, lists₁]
      by_cases here : l = first.negate
      · subst here
        simp [pairWatchers, Function.update_of_ne apart.symm]
      · by_cases there : l = second.negate
        · subst there
          simp [pairWatchers, here]
        · simp [pairWatchers, here, there]
    rw [lists]
    refine watching.append extended _ ?_ (fun l => length_pairWatchers_le) ?_
    · intro l w listed
      rcases mem_pairWatchers_iff.mp listed with ⟨rfl, rfl⟩ | ⟨-, rfl, rfl⟩
      · simp [differ.symm]
      · simp [differ]
    · intro l
      rw [Database.watches_iff_of_eq new, pairWatchers_ne_nil_iff]

end Watching

namespace Propagator

/-- What holds after a clause has been attached. -/
structure Attached (p : Propagator) (db' : Database) (id : Nat) (c : Clause) (vars : Nat)
    (p' : Propagator) : Prop where
  mode_eq : p'.mode = p.mode
  watchful : p'.Watchful db' vars
  pending_eq : p.mode = .watchedLiterals →
    p'.pending = if c.size = 1 ∨ c.isLearned then p.pending ++ [id] else p.pending

/-- A new clause is watched, and pending if it has one literal or is learned. -/
theorem attach_yields {p : Propagator} {db db' : Database} {c : Clause} {vars : Nat}
    (found : db'.clause db.size = .ok c) (extended : db.Extended c.lits db')
    (distinct : c.lits.Nodup) (inRange : ∀ l ∈ c.lits, l.var < vars)
    (watchful : p.Watchful db vars) :
    Yields (p.attach db.size db') (Attached p db' db.size c vars) := by
  obtain ⟨mode, watches, pending⟩ := p
  cases mode with
  | rescan => exact yields_pure_iff.mpr ⟨rfl, ⟨by simp, by simp⟩, by simp⟩
  | watchedLiterals =>
    simp only [attach, found, ok_bind]
    apply (WatchTable.watchFirstTwo_yields (watchful.covers rfl) (watchful.watching rfl) extended
      distinct inRange).bind
    rintro watches' ⟨covers', watching'⟩
    exact yields_pure_iff.mpr ⟨rfl, ⟨fun _ => covers', fun _ => watching'⟩, fun _ => rfl⟩

/-- Where nothing else is pending, a learned clause is the only one after it has been attached. -/
theorem Attached.pending_eq_singleton {p p' : Propagator} {db' : Database} {id vars : Nat} {c : Clause}
    (attached : Attached p db' id c vars p') (mode : p.mode = .watchedLiterals)
    (learned : c.isLearned = true) (free : p.pending = []) : p'.pending = [id] := by
  simp [attached.pending_eq mode, learned, free]

section Transitions
variable {p p' : Propagator} {db db' : Database} {t t' : Trail} {k bound : Nat}

/-- A decision closes the levels below it. -/
theorem Quiet.choose (quiet : p.Quiet db t (height t.stack + 1)) (coherent : t.Coherent) {l : Lit}
    (made : Trail.Coherent.Made t ⟨l, height t.stack + 1, .decision⟩ t') : p.Ready db t' := by
  have raised : height t'.stack = height t.stack + 1 := by
    rw [made.stack_eq]
    rfl
  have lower : ∀ k < height t'.stack, cut k t'.stack = cut k t.stack := by
    intro k below
    rw [made.stack_eq]
    exact cut_cons_of_lt (raised ▸ below)
  constructor
  · intro k below
    rw [lower k below]
    exact quiet.settled k (raised ▸ below)
  · intro mode
    obtain ⟨⟨covers, watching, guarded⟩, units, pending, ended⟩ := quiet.idle mode
    refine ⟨⟨made.varCount_eq ▸ covers, watching, ?_⟩, ?_, ?_, by simp [pending], by simp [pending]⟩
    · intro k below
      rw [lower k below]
      exact guarded k (raised ▸ below)
    · have current := guarded (height t.stack) (Nat.lt_succ_self _)
      rw [coherent.stacked.cut_eq_self (Nat.le_refl _)] at current
      have still : t'.processed = t.stack := by
        have grown : t'.stack = [_] ++ t.stack := made.stack_eq
        rw [coherent.processed_eq grown made.cursor_eq,
          Trail.processed_eq_stack (Nat.le_of_eq ended.symm)]
      rw [still, pending]
      intro id l watches fails
      refine (current id l watches fails).imp_right fun met => met.mono ?_
      rw [made.stack_eq]
      exact List.subset_cons_self _ _
    · intro id l single
      rw [lower 0 (by omega)]
      exact .inr (units id l single)

/-- Levels that are left as they were stay closed. -/
theorem Quiet.lower (quiet : p.Quiet db t bound) (within : k < bound)
    (stack_eq : t'.stack = cut k t.stack) (varCount_eq : t'.varCount = t.varCount)
    (ended : p.mode = .watchedLiterals → t'.cursor = t'.size) : p.Quiet db t' (k + 1) := by
  have lower : ∀ j < k + 1, cut j t'.stack = cut j t.stack := by
    intro j below
    rw [stack_eq]
    exact cut_cut (Nat.le_of_lt_succ below) _
  constructor
  · intro j below
    rw [lower j below]
    exact quiet.settled j (by omega)
  · intro mode
    obtain ⟨⟨covers, watching, guarded⟩, units, pending, -⟩ := quiet.idle mode
    refine ⟨⟨varCount_eq ▸ covers, watching, ?_⟩, ?_, pending, ended mode⟩
    · intro j below
      rw [lower j below]
      exact guarded j (by omega)
    · intro id l single
      rw [lower 0 (by omega)]
      exact units id l single

/-- Going back keeps the levels that are left closed. -/
theorem Quiet.backTo (quiet : p.Quiet db t bound) (within : k < bound)
    (returned : Trail.Coherent.Returned t k t') : p.Quiet db t' (k + 1) := by
  refine quiet.lower within returned.stack_eq returned.varCount_eq fun mode => ?_
  have shorter := (cut_suffix k t.stack).length_le
  rw [Trail.length_stack, ← (quiet.idle mode).ended] at shorter
  rw [returned.cursor_eq, ← Trail.length_stack, returned.stack_eq]
  exact Nat.min_eq_right shorter

/-- Where nothing is left to propagate, propagation may begin, and finds nothing pending. -/
theorem Quiet.ready (quiet : p.Quiet db t (height t.stack + 1)) (coherent : t.Coherent) :
    p.Ready db t := by
  refine ⟨fun k below => quiet.settled k (Nat.lt_succ_of_lt below), fun mode => ?_⟩
  obtain ⟨⟨covers, watching, guarded⟩, units, pending, -⟩ := quiet.idle mode
  refine ⟨⟨covers, watching, fun k below => guarded k (Nat.lt_succ_of_lt below)⟩, ?_,
    fun id l single => .inr (units id l single), by simp [pending], by simp [pending]⟩
  have current := guarded (height t.stack) (Nat.lt_succ_self _)
  rw [coherent.stacked.cut_eq_self (Nat.le_refl _)] at current
  rw [pending]
  exact fun id l watches fails => current id l watches (fails.mono t.processed_suffix.subset)

/-- A learned clause that is asserting leaves propagation ready, if no other clause is pending. -/
theorem Ready.learned (ready : p.Ready db t) (free : p.mode = .watchedLiterals → p.pending = [])
    {c : Clause} (learned : c.isLearned = true) {first : Lit} {rest : List Lit}
    (same : c.lits = first :: rest) (asserting : Asserting t.stack first rest)
    (extended : db.Extended c.lits db') (attached : Attached p db' db.size c t.varCount p') :
    p'.Ready db' t := by
  have watchesOld : ∀ id l, db'.Watches id l → id ≠ db.size → db.Watches id l :=
    fun id l watches differs => (Database.Watches.congr (extended.litsOf_old id differs)).mp watches
  have metOld : ∀ id stack, db.MetOn id stack → db'.MetOn id stack := by
    rintro id stack ⟨l, member, holds⟩
    rw [← extended.litsOf_of_lt (Database.lt_size_of_mem member)] at member
    exact ⟨l, member, holds⟩
  have new := extended.litsOf_new.trans same
  constructor
  · intro k below
    apply extended.settledOn (ready.settled k below)
    rw [same]
    exact asserting.settled_cut below
  · intro mode'
    have mode : p.mode = .watchedLiterals := attached.mode_eq.symm.trans mode'
    obtain ⟨⟨-, -, guarded⟩, passed, units, -, -⟩ := ready.primed mode
    have pending := free mode
    have pending' := attached.pending_eq_singleton mode learned pending
    refine ⟨⟨attached.watchful.covers mode', attached.watchful.watching mode', ?_⟩, ?_, ?_, ?_,
      by simp [pending']⟩
    · intro k below id l watches fails
      by_cases here : id = db.size
      · subst here
        obtain ⟨first', second, others, same', watched⟩ := watches
        obtain ⟨rfl, rfl⟩ : first = first' ∧ rest = second :: others := by
          simpa using new.symm.trans same'
        rcases watched with rfl | rfl
        · exact ((asserting.isOpen.anti (cut_subset k t.stack)).2 fails).elim
        · exact ((asserting.latest _ others rfl k below).2 fails).elim
      · exact (guarded k below id l (watchesOld id l watches here) fails).imp_right (metOld id _)
    · intro id l watches fails
      by_cases here : id = db.size
      · exact .inl (by simp [pending', here])
      · have met := (passed id l (watchesOld id l watches here) fails).resolve_left (by simp [pending])
        exact .inr (metOld id _ met)
    · intro id l single
      by_cases here : id = db.size
      · subst here
        obtain ⟨-, rfl⟩ : first = l ∧ rest = [] := by simpa using new.symm.trans single
        exact .inl ⟨by simp [pending'], asserting.bottom rfl⟩
      · refine .inr ((units id l (extended.litsOf_old id here ▸ single)).resolve_left ?_)
        simp [pending]
    · intro id listed
      obtain rfl : id = db.size := by simpa [pending'] using listed
      refine ⟨by rw [extended.size_eq]; omega, first, ?_⟩
      rw [new]
      intro l member differs
      exact asserting.fails l ((List.mem_cons.mp member).resolve_left differs)

/-- Storing an asserting clause and attaching it leaves propagation ready, if no other clause is
pending. -/
theorem Ready.learn_yields (ready : p.Ready db t)
    (free : p.mode = .watchedLiterals → p.pending = []) {first : Lit} {rest : List Lit}
    (asserting : Asserting t.stack first rest) (inRange : ∀ l ∈ first :: rest, l.var < t.varCount) :
    Yields (p.attach db.size (db.addLearned (first :: rest))) fun p' =>
      p'.mode = p.mode ∧ p'.Ready (db.addLearned (first :: rest)) t ∧
        (p.mode = .watchedLiterals → p'.pending = [db.size]) := by
  have distinct := asserting.distinct
  have lits : (Clause.ofLits (first :: rest) (.learned db.learnedCount)).lits = first :: rest :=
    eraseDups_eq_self distinct
  have extended := db.extended_addLearned (first :: rest)
  apply (attach_yields (db.clause_addLearned (first :: rest)) extended (lits.symm ▸ distinct)
    (lits.symm ▸ inRange) ready.watchful).imp
  intro p' attached
  exact ⟨attached.mode_eq, ready.learned free rfl lits asserting extended attached,
    fun mode => attached.pending_eq_singleton mode rfl (free mode)⟩

end Transitions

/-- Before the first call the clauses of one literal are pending, and all others are watched. -/
structure Stocked (p : Propagator) (db : Database) (vars : Nat) : Prop where
  watchful : p.Watchful db vars
  pending_iff : p.mode = .watchedLiterals → ∀ id, id ∈ p.pending ↔ ∃ l, db.litsOf id = [l]

section Loading
variable {p : Propagator} {db : Database} {vars : Nat}

/-- A propagator made for a number of variables has room for their watch lists, all of them empty. -/
theorem stocked_of_empty {mode : PropagationMode} (made : empty mode vars = .ok p) :
    p.mode = mode ∧ p.Stocked {} vars := by
  have unfilled : ∀ id, ({} : Database).litsOf id = [] :=
    fun id => Database.litsOf_eq_nil (Nat.zero_le id)
  obtain ⟨table, madeTable, same⟩ := Checked.bind_eq_ok_iff.mp made
  cases same
  refine ⟨rfl, ⟨?_, ?_⟩, fun _ id => by simp [unfilled]⟩
  · rintro (rfl : mode = .watchedLiterals)
    exact (WatchTable.spec_of_empty madeTable).1
  · rintro (rfl : mode = .watchedLiterals)
    have none := (WatchTable.spec_of_empty madeTable).2
    refine ⟨fun l => by simp [none], fun l id => ?_, fun l w member => by simp [none] at member⟩
    simp [none, Database.Watches, unfilled]

/-- The watch lists over the variables, where they are in use, can be addressed. -/
def HasRoom (mode : PropagationMode) (vars : Nat) : Prop :=
  mode = .watchedLiterals → literalCount vars * WatchTable.listBytes < byteLimit

/-- Where there is room for the watch lists, a propagator can be made. -/
theorem empty_yields {mode : PropagationMode} (room : HasRoom mode vars) :
    Yields (empty mode vars) fun p => p.mode = mode ∧ p.Stocked {} vars := by
  obtain ⟨p, made⟩ : ∃ p, empty mode vars = .ok p := by
    cases mode with
    | rescan =>
      have fits : 0 * WatchTable.listBytes < byteLimit := by decide
      simp only [empty, WatchTable.empty, newTable_of_lt _ fits, ok_bind]
      exact ⟨_, rfl⟩
    | watchedLiterals =>
      simp only [empty, WatchTable.empty, newTable_of_lt _ (room rfl), ok_bind]
      exact ⟨_, rfl⟩
  exact .intro made (stocked_of_empty made)

/-- Where there is none, making it fails. -/
theorem empty_of_not_hasRoom {mode : PropagationMode} (roomless : ¬ HasRoom mode vars) :
    empty mode vars = .error .tableTooLarge := by
  obtain ⟨rfl, tooLarge⟩ := Classical.not_imp.mp roomless
  simp only [empty, WatchTable.empty, newTable_of_not_lt _ tooLarge]
  rfl

/-- A clause of the input, its repetitions gone, is pending if it has one literal, and watched otherwise. -/
theorem Stocked.attach_yields (stocked : p.Stocked db vars) {lits : List Lit}
    (inRange : ∀ l ∈ lits, l.var < vars) :
    Yields (p.attach db.size (db.addInput lits)) fun p' =>
      p'.mode = p.mode ∧ p'.Stocked (db.addInput lits) vars := by
  have extended := db.extended_addInput lits
  apply (Propagator.attach_yields (db.clause_addInput lits) extended (nodup_eraseDups lits)
    (fun l member => inRange l (List.mem_eraseDups.mp member)) stocked.watchful).imp
  intro p' attached
  refine ⟨attached.mode_eq, attached.watchful, fun mode' id => ?_⟩
  have mode : p.mode = .watchedLiterals := attached.mode_eq.symm.trans mode'
  have before := stocked.pending_iff mode id
  have size : (Clause.ofLits lits .input).size = lits.eraseDups.length := rfl
  have notLearned : (Clause.ofLits lits .input).isLearned = false := rfl
  simp only [attached.pending_eq mode, size, notLearned, Bool.false_eq_true, or_false]
  by_cases new : id = db.size
  · subst new
    have absent : db.size ∉ p.pending := by
      rw [before, Database.litsOf_eq_nil (Nat.le_refl _)]
      simp
    rw [extended.litsOf_new, ← List.length_eq_one_iff]
    split
    · rename_i single
      exact iff_of_true (by simp) single
    · rename_i several
      exact iff_of_false absent several
  · rw [extended.litsOf_old id new, ← before]
    split <;> simp [new]

/-- Once all clauses are attached, the first call may begin. -/
theorem Stocked.ready (stocked : p.Stocked db vars) : p.Ready db (.empty vars) := by
  refine ⟨fun k below => absurd below (Nat.not_lt_zero k), fun mode => ?_⟩
  have bottom : height (Trail.empty vars).stack = 0 := rfl
  refine ⟨⟨?_, stocked.watchful.watching mode, fun k below => absurd below (Nat.not_lt_zero k)⟩, ?_,
    ?_, ?_, ?_⟩
  · rw [Trail.varCount_empty]
    exact stocked.watchful.covers mode
  · intro id l _ fails
    exact (not_failsOn_nil fails).elim
  · exact fun id l single => .inl ⟨(stocked.pending_iff mode id).mpr ⟨l, single⟩, bottom⟩
  · intro id listed
    obtain ⟨l, single⟩ := (stocked.pending_iff mode id).mp listed
    refine ⟨Database.lt_size_of_mem (single ▸ List.mem_cons_self ..), l, fun other member differs => ?_⟩
    rw [single] at member
    exact (differs (List.mem_singleton.mp member)).elim
  · intro above
    omega

end Loading

end Propagator

end ClauseLearning
