import ClauseLearning.Proofs.Observation.Logged
import ClauseLearning.Proofs.Observation.Replay
import ClauseLearning.Proofs.Search.Move
import Mathlib.Data.List.Forall2

/-! # The log of a search retells it

A replay that has followed the log so far stands where the search stands: it has the assignments of the
trail, the current level, and a stage that goes with the phase. Every step of the search adds events that
the replay admits, and both come to stand at one place again.
-/

namespace ClauseLearning

/-- The entry tells of the assignment. The clause that forced a literal may have been reordered since. -/
inductive Replay.Entry.Tells (db : Database) : Replay.Entry → Assignment → Prop
  | decision {l : Lit} {level : Nat} : Tells db ⟨l, level, none⟩ ⟨l, level, .decision⟩
  | implied {l : Lit} {level id : Nat} {antecedent : List Lit} : id < db.size →
      antecedent.Perm (db.litsOf id) → Tells db ⟨l, level, some antecedent⟩ ⟨l, level, .implied id⟩

/-- The replay has come to the trail. -/
structure Replay.Retells (r : Replay) (db : Database) (t : Trail) : Prop where
  level_eq : r.level = t.level
  entries : List.Forall₂ (Replay.Entry.Tells db) r.entries t.stack

section Retells
variable {r : Replay} {e : Replay.Entry} {a : Assignment} {db db' : Database} {t t' : Trail}
  {lits : List Lit} {l : Lit}

theorem Replay.Entry.Tells.lit_eq (tells : e.Tells db a) : e.lit = a.lit := by
  cases tells <;> rfl

theorem Replay.Entry.Tells.entry_level_eq (tells : e.Tells db a) : e.level = a.level := by
  cases tells <;> rfl

theorem Replay.Entry.Tells.reordered (tells : e.Tells db a) (reordered : db.Reordered db') :
    e.Tells db' a := by
  cases tells with
  | decision => exact .decision
  | implied inBounds perm =>
    exact .implied (reordered.size_eq ▸ inBounds) (perm.trans (reordered.perm _).symm)

theorem Replay.Entry.Tells.extended (tells : e.Tells db a) (extended : db.Extended lits db') :
    e.Tells db' a := by
  cases tells with
  | decision => exact .decision
  | implied inBounds perm =>
    refine .implied ?_ (extended.litsOf_of_lt inBounds ▸ perm)
    rw [extended.size_eq]
    omega

namespace Replay.Retells

theorem level_eq_height (retells : r.Retells db t) (coherent : t.Coherent) : r.level = height t.stack :=
  retells.level_eq.trans coherent.level_eq

theorem lits_eq (retells : r.Retells db t) : r.entries.map Entry.lit = t.stack.map Assignment.lit := by
  have same := List.rel_map (R := Entry.Tells db) (P := Eq) (fun _ _ => Entry.Tells.lit_eq)
    retells.entries
  exact List.forall₂_eq_eq_eq ▸ same

theorem falsifies_iff (retells : r.Retells db t) : r.Falsifies l ↔ l.FailsOn t.stack := by
  have same : l.negate ∈ r.entries.map Entry.lit ↔ l.negate ∈ t.stack.map Assignment.lit := by
    rw [retells.lits_eq]
  simpa [List.mem_map, Replay.Falsifies, Lit.FailsOn, Lit.HoldsOn] using same

theorem leaves_iff (retells : r.Retells db t) : r.Leaves l.var ↔ ∀ a ∈ t.stack, a.var ≠ l.var := by
  have same : (∀ l' ∈ r.entries.map Entry.lit, l'.var ≠ l.var) ↔
      ∀ l' ∈ t.stack.map Assignment.lit, l'.var ≠ l.var := by
    rw [retells.lits_eq]
  simpa [List.mem_map, Replay.Leaves, Assignment.var] using same

theorem reordered (retells : r.Retells db t) (reordered : db.Reordered db') : r.Retells db' t :=
  ⟨retells.level_eq, retells.entries.imp fun _ _ tells => tells.reordered reordered⟩

theorem extended (retells : r.Retells db t) (extended : db.Extended lits db') : r.Retells db' t :=
  ⟨retells.level_eq, retells.entries.imp fun _ _ tells => tells.extended extended⟩

/-- An assignment that is made and told of is one more on both sides. -/
theorem made {r' : Replay} (retells : r.Retells db t) (made : Trail.Coherent.Made t a t')
    (tells : e.Tells db a) (entries : r'.entries = e :: r.entries) (level : r'.level = a.level) :
    r'.Retells db t' where
  level_eq := by
    rw [made.coherent.level_eq, made.stack_eq, level]
    rfl
  entries := by
    rw [entries, made.stack_eq]
    exact .cons tells retells.entries

/-- A return takes back the same assignments from both. -/
theorem backTo (retells : r.Retells db t) (coherent : t.Coherent) {k : Nat} {stage : Stage}
    (within : k ≤ height t.stack) :
    Retells ⟨r.entries.filter (·.level ≤ k), k, stage⟩ db (t.backTo k) where
  level_eq := by
    rw [(coherent.backTo k).coherent.level_eq, (coherent.backTo k).stack_eq,
      coherent.stacked.height_cut within]
  entries := by
    rw [(coherent.backTo k).stack_eq, coherent.stacked.cut_eq_filter]
    exact List.rel_filter (fun _ _ tells => by simp [tells.entry_level_eq]) retells.entries

end Replay.Retells

end Retells

section Propagation
variable {work middle work' : Workspace Recorder} {events more : List Event}

/-- A replay that is searching follows the events in between, none of which is of a learned clause, and
comes to the later trail. -/
structure Workspace.Retold (work : Workspace Recorder) (events : List Event) (work' : Workspace Recorder) :
    Prop where
  logged : work.Logged events work'
  unlearned : events.filterMap Event.learned? = []
  replays : ∀ r : Replay, r.Retells work.db work.trail → r.stage = .searching →
    ∃ r', r.run? events = some r' ∧ r'.Retells work'.db work'.trail ∧ r'.stage = .searching

theorem Workspace.Retold.trans (first : work.Retold events middle) (second : middle.Retold more work') :
    work.Retold (events ++ more) work' where
  logged := first.logged.trans second.logged
  unlearned := by rw [List.filterMap_append, first.unlearned, second.unlearned, List.append_nil]
  replays r retells searching := by
    obtain ⟨r₁, ran₁, retells₁, searching₁⟩ := first.replays r retells searching
    obtain ⟨r₂, ran₂, told₂⟩ := second.replays r₁ retells₁ searching₁
    exact ⟨r₂, Replay.run?_append_eq_some_iff.mpr ⟨r₁, ran₁, ran₂⟩, told₂⟩

/-- What changes neither the log nor the counters nor what a replay tells of is retold by no event. -/
private theorem Workspace.retold_of_silent (tracer : work'.tracer = work.tracer)
    (stats : work'.stats = work.stats)
    (retells : ∀ r : Replay, r.Retells work.db work.trail → r.Retells work'.db work'.trail) :
    work.Retold [] work' where
  logged := by
    have log : work'.log = work.log := congrArg (fun tracer => tracer.events.toList) tracer
    exact ⟨by rw [log, List.append_nil], by rw [log, stats]; exact id⟩
  unlearned := rfl
  replays r told searching := ⟨r, rfl, retells r told, searching⟩

/-- A clause forces a literal of an unassigned variable, at the current level. -/
private theorem Workspace.retold_of_imply {l : Lit} {id : Nat} (coherent : work.trail.Coherent)
    (member : l ∈ work.db.litsOf id)
    (fails : ∀ other ∈ work.db.litsOf id, other ≠ l → other.FailsOn work.trail.stack)
    (implied : work.imply l id = .ok work') : ∃ events, work.Retold events work' := by
  have logged := Workspace.logged_of_imply implied
  obtain ⟨made, dbEq⟩ : Trail.Coherent.Made work.trail ⟨l, height work.trail.stack, .implied id⟩
      work'.trail ∧ work'.db = work.db := by
    obtain ⟨t', pushed, rfl⟩ := Workspace.exists_of_imply implied
    exact ⟨coherent.made_of_imply pushed, rfl⟩
  have level : work'.trail.level = height work.trail.stack := by
    rw [made.coherent.level_eq, made.stack_eq]
    rfl
  rw [level, dbEq] at logged
  refine ⟨_, logged, rfl, fun r retells searching => ?_⟩
  have current := retells.level_eq_height coherent
  have fresh := (made.stack_eq ▸ made.coherent.stacked).fresh
  refine ⟨_, Replay.run?_cons_eq_some_iff.mpr ⟨?_, rfl⟩, ?_, searching⟩
  · exact ⟨searching, current.symm, retells.leaves_iff.mpr fresh, member,
      fun other inClause differs => retells.falsifies_iff.mpr (fails other inClause differs)⟩
  · rw [dbEq]
    exact retells.made made
      (.implied (Database.lt_size_of_mem member) (.refl (work.db.litsOf id))) rfl current

/-- The changes made by propagation are retold. -/
theorem Workspace.LeadsTo.retold (leads : work.LeadsTo work') (coherent : work.trail.Coherent) :
    ∃ events, work.Retold events work' := by
  induction leads with
  | refl => exact ⟨[], retold_of_silent rfl rfl fun _ => id⟩
  | reorder _ inBounds perm ih =>
    obtain ⟨events, retold⟩ := ih
    have reordered := Database.reordered_reorder inBounds perm
    exact ⟨_, retold.trans (retold_of_silent rfl rfl fun _ told => told.reordered reordered)⟩
  | moveCursor _ _ ih =>
    obtain ⟨events, retold⟩ := ih
    exact ⟨_, retold.trans (retold_of_silent rfl rfl fun _ told => ⟨told.level_eq, told.entries⟩)⟩
  | imply before member fails implied ih =>
    obtain ⟨events, retold⟩ := ih
    obtain ⟨more, retold'⟩ := retold_of_imply (before.coherent coherent) member fails implied
    exact ⟨_, retold.trans retold'⟩

end Propagation

/-- The stages that go with a phase. An analysis leads to no engine error. -/
def Phase.Told (stack : List Assignment) (stage : Replay.Stage) : Phase → Prop
  | .deciding | .propagating | .analyzing _ | .finished (.ok .sat) => stage = .searching
  | .backtracking analysis => stage = .conflicted ∧ ∀ l ∈ analysis.learned, l.FailsOn stack
  | .finished (.ok .unsat) => stage = .refuted
  | .finished (.error _) => False

/-- The replay stands where the search stands. -/
structure Replay.Tracks (r : Replay) (phase : Phase) (s : Solver Recorder) : Prop where
  retells : r.Retells s.work.db s.work.trail
  stage : phase.Told s.work.trail.stack r.stage

/-- The clauses are, up to the order of their literals, those learned. -/
def Database.Lists (db : Database) (clauses : List (List Lit)) : Prop :=
  List.Forall₂ (fun lits c => lits.Perm c.lits) clauses db.learned

namespace Database.Lists
variable {db db' : Database} {clauses : List (List Lit)} {lits : List Lit}

theorem reordered (lists : db.Lists clauses) (reordered : db.Reordered db') : db'.Lists clauses := by
  have through : ∀ {xs : List (List Lit)} {ys zs : List Clause},
      List.Forall₂ (fun lits c => lits.Perm c.lits) xs ys →
      List.Forall₂ (fun c c' => c.lits.Perm c'.lits) ys zs →
      List.Forall₂ (fun lits c => lits.Perm c.lits) xs zs := by
    intro xs ys zs first second
    induction first generalizing zs with
    | nil =>
      cases second
      exact .nil
    | cons perm _ ih =>
      cases second with
      | cons perm' rest => exact .cons (perm.trans perm') (ih rest)
  exact through lists reordered.learned

theorem addLearned (lists : db.Lists clauses) (distinct : lits.Nodup) :
    (db.addLearned lits).Lists (clauses ++ [lits]) := by
  rw [Lists, db.learned_addLearned]
  refine List.rel_append lists (.cons ?_ .nil)
  rw [Clause.ofLits, eraseDups_eq_self distinct]

end Database.Lists

namespace Solver

/-- The events lead a replay from where the search stood to where it stands. -/
structure Records (phase : Phase) (s : Solver Recorder) (events : List Event) (phase' : Phase)
    (s' : Solver Recorder) : Prop where
  logged : s.work.Logged events s'.work
  replays : ∀ r : Replay, r.Tracks phase s → ∃ r', r.run? events = some r' ∧ r'.Tracks phase' s'
  lists : ∀ clauses, s.work.db.Lists clauses →
    s'.work.db.Lists (clauses ++ events.filterMap Event.learned?)

variable {vars : Nat} {config : Config} {start : Database} {phase middle phase' : Phase}
  {s t s' : Solver Recorder} {events more : List Event}

theorem Records.refl (phase : Phase) (s : Solver Recorder) : Records phase s [] phase s :=
  ⟨.refl _, fun r tracks => ⟨r, rfl, tracks⟩, fun clauses lists => by simpa using lists⟩

theorem Records.trans (first : Records phase s events middle t)
    (second : Records middle t more phase' s') : Records phase s (events ++ more) phase' s' where
  logged := first.logged.trans second.logged
  replays r tracks := by
    obtain ⟨r₁, ran₁, tracks₁⟩ := first.replays r tracks
    obtain ⟨r₂, ran₂, tracks₂⟩ := second.replays r₁ tracks₁
    exact ⟨r₂, Replay.run?_append_eq_some_iff.mpr ⟨r₁, ran₁, ran₂⟩, tracks₂⟩
  lists clauses listed := by
    rw [List.filterMap_append, ← List.append_assoc]
    exact second.lists _ (first.lists clauses listed)

/-- A decision opens the next level with a literal of an unassigned variable. Without one the search has
nothing to tell. -/
private theorem Consistent.records_deciding (consistent : Consistent vars config start .deciding s)
    (stepped : Solver.step .deciding s = .ok (phase', s')) :
    ∃ events, Records .deciding s events phase' s' := by
  have coherent := consistent.intact.coherent
  obtain ⟨⟨choice, branching⟩, -, onward⟩ := Checked.bind_eq_ok_iff.mp stepped
  cases choice with
  | none =>
    cases onward
    exact ⟨[], .refl _, fun r tracks => ⟨r, rfl, tracks.retells, tracks.stage⟩,
      fun clauses lists => by simpa using lists⟩
  | some l =>
    obtain ⟨decided, decision, same⟩ := Checked.bind_eq_ok_iff.mp onward
    cases same
    have logged := logged_of_makeDecision decision
    obtain ⟨made, dbEq⟩ : Trail.Coherent.Made s.work.trail ⟨l, height s.work.trail.stack + 1, .decision⟩
        s'.work.trail ∧ s'.work.db = s.work.db := by
      obtain ⟨t', chosen, same⟩ := Checked.bind_eq_ok_iff.mp decision
      cases same
      exact ⟨coherent.made_of_choose chosen, rfl⟩
    have level : s'.work.trail.level = height s.work.trail.stack + 1 := by
      rw [made.coherent.level_eq, made.stack_eq]
      rfl
    rw [level] at logged
    refine ⟨_, logged, fun r tracks => ?_, fun clauses lists => ?_⟩
    · obtain ⟨retells, searching⟩ := tracks
      have current := retells.level_eq_height coherent
      have fresh := (made.stack_eq ▸ made.coherent.stacked).fresh
      refine ⟨_, Replay.run?_cons_eq_some_iff.mpr ⟨⟨searching, ?_, retells.leaves_iff.mpr fresh⟩, rfl⟩,
        ?_, searching⟩
      · rw [current]
      · rw [dbEq]
        exact retells.made made .decision rfl rfl
    · simpa [dbEq, Event.learned?, List.filterMap_cons] using lists

/-- Propagation tells of each literal that it forces. -/
private theorem Consistent.records_propagating (consistent : Consistent vars config start .propagating s)
    (stepped : Solver.step .propagating s = .ok (phase', s')) :
    ∃ events, Records .propagating s events phase' s' := by
  have valid := consistent.valid rfl
  obtain ⟨⟨conflict, p', work'⟩, propagated, same⟩ := Checked.bind_eq_ok_iff.mp stepped
  cases same
  have leads := Propagator.leadsTo_of_propagate (valid.2.safe consistent.intact.sound) propagated
  obtain ⟨events, logged, unlearned, replays⟩ := leads.retold consistent.intact.coherent
  refine ⟨events, logged, fun r tracks => ?_, fun clauses lists => ?_⟩
  · obtain ⟨r', ran, retells, searching⟩ := replays r tracks.retells tracks.stage
    refine ⟨r', ran, retells, ?_⟩
    cases conflict <;> exact searching
  · rw [unlearned, List.append_nil]
    exact lists.reordered (consistent.outcome propagated).advanced.reordered

/-- A conflict is told of with the clause that fails. At level zero it refutes the formula, and otherwise
the literals of the clause derived from it fail as well. -/
private theorem Consistent.records_analyzing {conflict : Nat}
    (consistent : Consistent vars config start (.analyzing conflict) s)
    (stepped : Solver.step (.analyzing conflict) s = .ok (phase', s')) :
    ∃ events, Records (.analyzing conflict) s events phase' s' := by
  obtain ⟨intact, inBounds, fails, quiet⟩ := consistent.valid rfl
  have coherent := intact.coherent
  obtain ⟨noted, counted, outcome⟩ := exists_of_step_analyzing stepped
  have logged := logged_of_noteConflict counted
  obtain rfl := eq_of_noteConflict counted
  have admitted : ∀ r : Replay, r.Tracks (.analyzing conflict) s →
      r.Admits (.conflict (s.work.db.litsOf conflict) s.work.trail.level) :=
    fun r tracks => ⟨tracks.stage, tracks.retells.level_eq.symm,
      fun l member => tracks.retells.falsifies_iff.mpr (fails l member)⟩
  have lists : ∀ clauses, s.work.db.Lists clauses → s.work.db.Lists (clauses ++
      [Event.conflict (s.work.db.litsOf conflict) s.work.trail.level].filterMap Event.learned?) := by
    simp [Event.learned?, List.filterMap_cons]
  rcases outcome with ⟨bottom, rfl, rfl⟩ | ⟨raised, outcome, steps, found, rfl, rfl⟩
  · refine ⟨_, logged, fun r tracks => ?_, lists⟩
    refine ⟨_, Replay.run?_cons_eq_some_iff.mpr ⟨admitted r tracks, rfl⟩, ?_, if_pos bottom⟩
    exact ⟨tracks.retells.level_eq, tracks.retells.entries⟩
  · have above : 0 < height s.work.trail.stack := coherent.level_eq ▸ raised
    have settled := (quiet above).settled (height s.work.trail.stack - 1) (Nat.sub_lt above Nat.one_pos)
    obtain ⟨analysis, rfl, -, failing⟩ :=
      (analyze_yields coherent intact.grounded above settled inBounds fails).of_eq found
    rw [reportResolutions_eq]
    refine ⟨_, logged, fun r tracks => ?_, lists⟩
    refine ⟨_, Replay.run?_cons_eq_some_iff.mpr ⟨admitted r tracks, rfl⟩, ?_,
      if_neg (Nat.ne_of_gt raised), failing⟩
    exact ⟨tracks.retells.level_eq, tracks.retells.entries⟩

/-- A return for a learned clause is told of with the clause and the levels, and takes back the same
assignments from the trail and from what was told. -/
private theorem Consistent.records_backtracking {analysis : Analysis}
    (consistent : Consistent vars config start (.backtracking analysis) s)
    (stepped : Solver.step (.backtracking analysis) s = .ok (phase', s')) :
    ∃ events, Records (.backtracking analysis) s events phase' s' := by
  obtain ⟨intact, justified, -⟩ := consistent.valid rfl
  have coherent := intact.coherent
  have lower := justified.lower
  obtain ⟨first, rest, same, asserting⟩ := justified.asserting
  have distinct : analysis.learned.Nodup := same ▸ asserting.distinct
  obtain ⟨rfl, learned⟩ :=
    (step_backtracking_yields_learned (consistent.valid rfl) consistent.fit).of_eq stepped
  have logged : s.work.Logged [.learned analysis.learned analysis.backtrackLevel,
      .backtrack s.work.trail.level analysis.backtrackLevel] s'.work := by
    obtain ⟨outcome, went, onward⟩ := Checked.bind_eq_ok_iff.mp stepped
    cases outcome with
    | error e => cases onward
    | ok returned =>
      cases onward
      exact logged_of_learn went
  refine ⟨_, logged, fun r tracks => ?_, fun clauses lists => ?_⟩
  · obtain ⟨retells, conflicted, failing⟩ := tracks
    have current := retells.level_eq_height coherent
    refine ⟨_, Replay.run?_cons_eq_some_iff.mpr ⟨⟨conflicted, current ▸ lower, fun l member =>
      retells.falsifies_iff.mpr (failing l member)⟩, Replay.run?_cons_eq_some_iff.mpr
        ⟨⟨rfl, retells.level_eq.symm⟩, rfl⟩⟩, ?_, rfl⟩
    rw [learned.db_eq, learned.trail_eq]
    exact (retells.backTo coherent (Nat.le_of_lt lower)).extended
      (s.work.db.extended_addLearned_of_nodup distinct)
  · rw [learned.db_eq]
    exact lists.addLearned distinct

/-- Every step records what it does. -/
theorem Consistent.records (consistent : Consistent vars config start phase s)
    (stepped : Solver.step phase s = .ok (phase', s')) : ∃ events, Records phase s events phase' s' := by
  cases phase with
  | deciding => exact consistent.records_deciding stepped
  | propagating => exact consistent.records_propagating stepped
  | analyzing conflict => exact consistent.records_analyzing stepped
  | backtracking analysis => exact consistent.records_backtracking stepped
  | finished outcome =>
    cases stepped
    exact ⟨[], .refl _ _⟩

/-- So does a whole search. -/
theorem Consistent.records_follows (consistent : Consistent vars config start phase s)
    (follows : Follows phase s phase' s') :
    Consistent vars config start phase' s' ∧ ∃ events, Records phase s events phase' s' := by
  induction follows with
  | refl => exact ⟨consistent, [], .refl _ _⟩
  | tail _ stepped ih =>
    obtain ⟨consistent', events, records⟩ := ih
    obtain ⟨more, records'⟩ := consistent'.records stepped
    exact ⟨(consistent'.step stepped).1, _, records.trans records'⟩

end Solver

end ClauseLearning
