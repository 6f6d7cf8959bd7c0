import ClauseLearning.Proofs.Correctness
import ClauseLearning.Proofs.Search.Reachable

/-! # Invariants of a search

What is true of the clauses, the trail and the watch lists in every state that a search comes to, be it
at the end of a step or within one: learned clauses and the assignments of level zero follow from the
formula, every level that has been propagated is settled, and each clause is watched through its first
two literals, which are guarded level by level.
-/

namespace ClauseLearning

/-- The assignments of level at most `k`. -/
def Trail.upTo (t : Trail) (k : Nat) : List Assignment :=
  t.entries.toList.filter fun a => decide (a.level ≤ k)

/-- What is assigned at level zero on the one trail stands at the same place on the other. -/
def Trail.KeepsBottom (t t' : Trail) : Prop :=
  ∀ (place : Nat) (a : Assignment), t.entries[place]? = some a → a.level = 0 →
    t'.entries[place]? = some a

/-- Wherever one of the first two literals of a clause fails, another literal of the clause was made true
at the same level or below. -/
def Database.WatchesGuarded (db : Database) (t : Trail) : Prop :=
  ∀ id first second rest, db.litsOf id = first :: second :: rest →
    ∀ l, l = first ∨ l = second → ∀ a ∈ t.entries.toList, a.lit = l.negate →
      ∃ b ∈ t.entries.toList, b.lit ∈ db.litsOf id ∧ b.level ≤ a.level

/-- There is a list for each literal over the variables. A clause of two literals or more has one watcher
in the list of the negation of its first, one in that of its second, and none besides; a shorter one has
none. The blocker of a watcher is a literal of the clause other than the one watched. -/
structure WatchTable.Mirrors (table : WatchTable) (db : Database) (vars : Nat) : Prop where
  covers : table.lists.size = literalCount vars
  twice : ∀ id first second rest, db.litsOf id = first :: second :: rest →
    ∀ l, (table.listOf l).countP (fun w => w.clause == id) =
      if l = first.negate ∨ l = second.negate then 1 else 0
  short : ∀ id, (db.litsOf id).length < 2 → ∀ l, ∀ w ∈ table.listOf l, w.clause ≠ id
  blocked : ∀ l, ∀ w ∈ table.listOf l, w.blocker ∈ db.litsOf w.clause ∧ w.blocker ≠ l.negate

section Views
variable {t : Trail} {a : Assignment} {db : Database} {k : Nat}

theorem Trail.mem_upTo_iff : a ∈ t.upTo k ↔ a ∈ t.stack ∧ a.level ≤ k := by
  simp [upTo, stack]

theorem Trail.mem_stack_iff_mem_entries : a ∈ t.stack ↔ a ∈ t.entries.toList := List.mem_reverse

theorem Trail.Coherent.keepsBottom {t' : Trail} (coherent : t.Coherent) (coherent' : t'.Coherent)
    (kept : cut 0 t.stack <:+ cut 0 t'.stack) : t.KeepsBottom t' :=
  fun _ _ found level => coherent.getElem?_of_cut_suffix coherent' kept (Nat.le_of_eq level) found

/-- Clauses that are settled on a cut are settled on the assignments of the levels left. -/
theorem Database.SettledOn.upTo (settled : db.SettledOn (cut k t.stack)) (stacked : Stacked t.stack)
    {c : Clause} (member : c ∈ db.clauses.toList) : Settled (t.upTo k) c.lits := by
  obtain ⟨id, inBounds, rfl⟩ := Database.mem_clauses_iff.mp member
  rw [← Database.litsOf_eq_of_lt inBounds]
  refine (settled id inBounds).of_subset (fun a left => ?_) fun a kept => ?_
  · exact Trail.mem_upTo_iff.mpr (stacked.mem_cut_iff.mp left)
  · exact stacked.mem_cut_iff.mpr (Trail.mem_upTo_iff.mp kept)

/-- If every level is guarded, what guards a failed literal is no later than its failing. -/
theorem Database.watchesGuarded (stacked : Stacked t.stack)
    (guarded : ∀ k ≤ height t.stack, db.GuardedOn [] (cut k t.stack) (cut k t.stack)) :
    db.WatchesGuarded t := by
  intro id first second rest same l watched a listed fails
  have member : a ∈ t.stack := Trail.mem_stack_iff_mem_entries.mpr listed
  have failing : l.FailsOn (cut a.level t.stack) :=
    ⟨a, stacked.mem_cut_iff.mpr ⟨member, Nat.le_refl _⟩, fails⟩
  have met := (guarded a.level (stacked.level_le_height member) id l
    ((Database.watches_iff_of_eq same).mpr watched) failing).resolve_left List.not_mem_nil
  obtain ⟨_, inClause, b, left, rfl⟩ := met
  obtain ⟨member', within⟩ := stacked.mem_cut_iff.mp left
  exact ⟨b, Trail.mem_stack_iff_mem_entries.mp member', inClause, within⟩

/-- Watch lists that are right mirror the clauses. -/
theorem Watching.mirrors {table : WatchTable} {vars : Nat} (watching : Watching db table.listOf)
    (covers : table.Covers vars) : table.Mirrors db vars := by
  refine ⟨covers, ?_, ?_, watching.blocked⟩
  · intro id first second rest same l
    have count : (table.listOf l).countP (fun w => w.clause == id) =
        ((table.listOf l).map Watcher.clause).count id := by
      rw [List.count, List.countP_map]
      rfl
    have watched := watching.watched l id
    have turned : ∀ other : Lit, l.negate = other ↔ l = other.negate := fun other =>
      ⟨fun same => by rw [← same, l.negate_negate], fun same => by rw [same, other.negate_negate]⟩
    rw [Database.watches_iff_of_eq same, turned, turned] at watched
    rw [count]
    split
    · rename_i here
      exact List.count_eq_one_of_mem (watching.distinct l) (watched.mpr here)
    · rename_i elsewhere
      exact List.count_eq_zero.mpr fun listed => elsewhere (watched.mp listed)
  · rintro id few l w listed rfl
    obtain ⟨first, second, rest, same, -⟩ :=
      (watching.watched l w.clause).mp (List.mem_map_of_mem listed)
    simp only [same, List.length_cons] at few
    omega

end Views

namespace Solver
variable {σ : Type} [Tracer σ] {f : Formula} {config : Config} {phase : Phase} {s : Solver σ}

/-- The search for a model of `detour` comes to its second decision with a clause learned from the first
and two literals that it forces at level zero. -/
theorem detour_reachable : ∃ s : Solver Recorder, Reachable detour {} .deciding s ∧
    s.work.trail.level = 1 ∧ s.work.db.learned.map Clause.lits = [[⟨0, true⟩]] ∧
    s.work.trail.entries.toList.countP (fun a => a.level == 0) = 2 := by
  have run : (new {} detour (Recorder.mk #[]) >>= runRounds 1 3 .propagating).map (fun result =>
      (result.1, result.2.work.trail.level, result.2.work.db.learned.map Clause.lits,
        result.2.work.trail.entries.toList.countP fun a => a.level == 0)) =
      .ok (.deciding, 1, [[⟨0, true⟩]], 2) := by
    decide +kernel
  obtain ⟨phase, s, reachable, seen⟩ := Reachable.exists_of_runRounds run
  simp only [Prod.mk.injEq] at seen
  obtain ⟨rfl, seen⟩ := seen
  exact ⟨s, reachable, seen⟩

/-- Whatever satisfies the formula satisfies every learned clause and makes true what is assigned at level
zero, at every moment of a search. What is assigned at level zero stays where it is on the trail, for all
steps to come and from one moment in the course of propagation to a later one. -/
theorem learned_sound (built : f.Built) (small : f.varCount ≤ variableLimit)
    (reachable : Reachable f config phase s) :
    (∀ p db t, s.Passes phase p db t → ∀ assignment, f.SatisfiedBy assignment →
      (∀ c ∈ db.learned, Satisfies assignment c.lits) ∧
        ∀ a ∈ t.entries.toList, a.level = 0 → a.lit.isTrue assignment = true) ∧
      (∀ phase' s' p db t, Follows phase s phase' s' → s'.Passes phase' p db t →
        s.work.trail.KeepsBottom t) ∧
      (phase = .propagating → ∀ p work conflict p' work',
        Propagator.Underway s.propagator s.work none p work →
          Propagator.Underway p work conflict p' work' → work.trail.KeepsBottom work'.trail) := by
  obtain ⟨start, models, steady⟩ := reachable.steady built small
  refine ⟨?_, ?_, ?_⟩
  · intro p db t passes assignment satisfied
    have intact := (steady.passes passes).1
    have satisfied' : db.SatisfiedBy assignment :=
      (intact.models assignment).mpr (models assignment satisfied)
    refine ⟨fun c learned => satisfied' c (List.mem_filter.mp learned).1, fun a listed level => ?_⟩
    exact intact.grounded.isTrue_of_level_zero intact.coherent.stacked satisfied'
      (Trail.mem_stack_iff_mem_entries.mpr listed) level
  · intro phase' s' p db t follows passes
    obtain ⟨steady', bottom⟩ := steady.follows small follows
    obtain ⟨intact', -, -, bottom'⟩ := steady'.passes passes
    exact steady.intact.coherent.keepsBottom intact'.coherent (bottom.trans bottom')
  · rintro rfl p work conflict p' work' earlier later
    have safe := (earlier.midway (steady.valid.2.safe steady.intact.sound)).safe
    obtain ⟨safe', advanced, -⟩ := later.midway safe
    exact safe.sound.coherent.keepsBottom safe'.sound.coherent (cut_suffix_cut advanced.suffix)

theorem learned_sound_detour : detour.Built ∧ detour.varCount ≤ variableLimit ∧
    ∃ s : Solver Recorder, Reachable detour {} .deciding s ∧
      s.work.db.learned.map Clause.lits = [[⟨0, true⟩]] ∧
      s.work.trail.entries.toList.countP (fun a => a.level == 0) = 2 ∧
      (∀ p db t, s.Passes .deciding p db t → ∀ assignment, detour.SatisfiedBy assignment →
        (∀ c ∈ db.learned, Satisfies assignment c.lits) ∧
          ∀ a ∈ t.entries.toList, a.level = 0 → a.lit.isTrue assignment = true) ∧
        (∀ phase' s' p db t, Follows .deciding s phase' s' → s'.Passes phase' p db t →
          s.work.trail.KeepsBottom t) ∧
        (Phase.deciding = .propagating → ∀ p work conflict p' work',
          Propagator.Underway s.propagator s.work none p work →
            Propagator.Underway p work conflict p' work' →
              work.trail.KeepsBottom work'.trail) := by
  obtain ⟨s, reachable, -, learned, bottom⟩ := detour_reachable
  exact ⟨detour_built, by decide, s, reachable, learned, bottom,
    learned_sound detour_built (by decide) reachable⟩

/-- On the assignments up to any level below the current one, every clause is satisfied or has two
unassigned literals. So it is on all assignments when a decision is due. -/
theorem levels_settled (built : f.Built) (small : f.varCount ≤ variableLimit)
    (reachable : Reachable f config phase s) :
    (phase.isFinished = false → ∀ k < s.work.trail.level, ∀ c ∈ s.work.db.clauses.toList,
      Settled (s.work.trail.upTo k) c.lits) ∧
      (phase = .deciding → ∀ c ∈ s.work.db.clauses.toList,
        Settled (s.work.trail.upTo s.work.trail.level) c.lits) := by
  obtain ⟨start, -, steady⟩ := reachable.steady built small
  have stacked := steady.intact.coherent.stacked
  rw [steady.intact.coherent.level_eq]
  constructor
  · intro going k below c member
    exact (steady.valid.settledOn_cut going below).upTo stacked member
  · rintro rfl c member
    exact (steady.valid.2.settled _ (Nat.lt_succ_self _)).upTo stacked member

theorem levels_settled_detour : detour.Built ∧ detour.varCount ≤ variableLimit ∧
    ∃ s : Solver Recorder, Reachable detour {} .deciding s ∧ s.work.trail.level = 1 ∧
      s.work.db.learned.map Clause.lits = [[⟨0, true⟩]] ∧
      (Phase.deciding.isFinished = false → ∀ k < s.work.trail.level, ∀ c ∈ s.work.db.clauses.toList,
        Settled (s.work.trail.upTo k) c.lits) ∧
        (Phase.deciding = .deciding → ∀ c ∈ s.work.db.clauses.toList,
          Settled (s.work.trail.upTo s.work.trail.level) c.lits) := by
  obtain ⟨s, reachable, level, learned, -⟩ := detour_reachable
  exact ⟨detour_built, by decide, s, reachable, level, learned,
    levels_settled detour_built (by decide) reachable⟩

/-- Along watch lists, at every moment of a search, the lists mirror the clauses. When a decision is due,
and after a return to any lower level, a clause one of whose first two literals fails has a literal made
true no later. -/
theorem watches_mirror (built : f.Built) (small : f.varCount ≤ variableLimit)
    (watched : config.propagation = .watchedLiterals) (reachable : Reachable f config phase s) :
    (∀ p db t, s.Passes phase p db t → p.watches.Mirrors db f.varCount) ∧
      (phase = .deciding → s.work.db.WatchesGuarded s.work.trail) ∧
      (phase.isFinished = false → ∀ k < s.work.trail.level,
        s.work.db.WatchesGuarded (s.work.trail.backTo k)) := by
  obtain ⟨start, -, steady⟩ := reachable.steady built small
  have coherent := steady.intact.coherent
  have mode : s.propagator.mode = .watchedLiterals := steady.mode_eq.trans watched
  refine ⟨?_, ?_, ?_⟩
  · intro p db t passes
    obtain ⟨-, modeEq, watchful, -⟩ := steady.passes passes
    have mode' : p.mode = .watchedLiterals := modeEq.trans watched
    exact (watchful.watching mode').mirrors (watchful.covers mode')
  · rintro rfl
    exact Database.watchesGuarded coherent.stacked fun k within =>
      (steady.valid.2.idle mode).guards.guarded k (Nat.lt_succ_of_le within)
  · intro going k below
    rw [coherent.level_eq] at below
    have returned := coherent.backTo k
    refine Database.watchesGuarded returned.coherent.stacked fun j within => ?_
    rw [returned.stack_eq, coherent.stacked.height_cut (Nat.le_of_lt below)] at within
    rw [returned.stack_eq, cut_cut within]
    exact steady.valid.guardedOn_cut going mode (Nat.lt_of_le_of_lt within below)

theorem watches_mirror_detour : detour.Built ∧ detour.varCount ≤ variableLimit ∧
    ({} : Config).propagation = .watchedLiterals ∧
    ∃ s : Solver Recorder, Reachable detour {} .deciding s ∧ s.work.trail.level = 1 ∧
      s.work.db.learned.map Clause.lits = [[⟨0, true⟩]] ∧
      (∀ p db t, s.Passes .deciding p db t → p.watches.Mirrors db detour.varCount) ∧
        (Phase.deciding = .deciding → s.work.db.WatchesGuarded s.work.trail) ∧
        (Phase.deciding.isFinished = false → ∀ k < s.work.trail.level,
          s.work.db.WatchesGuarded (s.work.trail.backTo k)) := by
  obtain ⟨s, reachable, level, learned, -⟩ := detour_reachable
  exact ⟨detour_built, by decide, rfl, s, reachable, level, learned,
    watches_mirror detour_built (by decide) rfl reachable⟩

end Solver

end ClauseLearning
