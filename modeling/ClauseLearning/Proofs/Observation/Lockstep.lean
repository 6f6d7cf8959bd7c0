import ClauseLearning.Observation.Recorder
import ClauseLearning.Proofs.Checked
import ClauseLearning.Search.Run

/-! # A search does not depend on who watches it

Tracers take in events and messages but are never asked anything that the search depends on. Two
searches that differ in nothing but their tracers, even in the type of them, therefore run in lockstep:
they stop with the same fault, or go on to states that again differ in nothing but their tracers. A tracer
that wants details has clauses looked up for it, but only such as the search itself has found before
(`Database.Has`). Since both tracers are told the same, a relation between them holds to the end if no single
event or message breaks it (`Tracer.Keeps`). The relation that says nothing is the case in which only the
searches matter.
-/

namespace ClauseLearning

/-- Two computations stop with the same error, or both yield values that are related. -/
def Lockstep {ε α β : Type} (Related : α → β → Prop) : Except ε α → Except ε β → Prop
  | .ok value, .ok other => Related value other
  | .error error, .error other => error = other
  | _, _ => False

section Lockstep
variable {α β γ δ : Type} {Related : α → β → Prop} {Linked : γ → δ → Prop}

theorem Lockstep.bind {first : Checked α} {first' : Checked β} {next : α → Checked γ}
    {next' : β → Checked δ} (before : Lockstep Related first first')
    (after : ∀ value other, Related value other → Lockstep Linked (next value) (next' other)) :
    Lockstep Linked (first >>= next) (first' >>= next') := by
  cases first with
  | ok value =>
    cases first' with
    | ok other => exact after value other before
    | error fault => cases before
  | error fault =>
    cases first' with
    | ok other => cases before
    | error fault' => exact before

/-- A first part that both have in common yields one value for both. -/
theorem Lockstep.bind_same {first : Checked α} {next : α → Checked γ} {next' : α → Checked δ}
    (after : ∀ value, first = .ok value → Lockstep Linked (next value) (next' value)) :
    Lockstep Linked (first >>= next) (first >>= next') := by
  cases first with
  | ok value => exact after value rfl
  | error fault => exact rfl

/-- Of two computations in lockstep that yield values, the values are related. -/
theorem Lockstep.related {first : Checked α} {first' : Checked β} {value : α} {other : β}
    (lockstep : Lockstep Related first first') (same : first = .ok value)
    (same' : first' = .ok other) : Related value other := by
  rw [same, same'] at lockstep
  exact lockstep

/-- Where the one computation yields a value, the other one does, too. -/
theorem Lockstep.exists_of_eq {first : Checked α} {first' : Checked β} {value : α}
    (lockstep : Lockstep Related first first') (same : first = .ok value) :
    ∃ other, first' = .ok other ∧ Related value other := by
  rw [same] at lockstep
  cases first' with
  | ok other => exact ⟨other, rfl, lockstep⟩
  | error fault => cases lockstep

/-- What is read off related values in the same way is the same. -/
theorem Lockstep.map_eq {first : Checked α} {first' : Checked β} {read : α → γ} {read' : β → γ}
    (lockstep : Lockstep Related first first')
    (same : ∀ value other, Related value other → read value = read' other) :
    first.map read = first'.map read' := by
  cases first with
  | ok value =>
    cases first' with
    | ok other => exact congrArg Except.ok (same value other lockstep)
    | error fault => cases lockstep
  | error fault =>
    cases first' with
    | ok other => cases lockstep
    | error fault' => exact congrArg Except.error lockstep

end Lockstep

variable {σ τ : Type}

/-- Whatever two related tracers are both told, they are related again. -/
class Tracer.Keeps [Tracer σ] [Tracer τ] (R : σ → τ → Prop) : Prop where
  event {tracer : σ} {tracer' : τ} (e : Event) : e.isDetail = false → R tracer tracer' →
    R (Tracer.event e tracer) (Tracer.event e tracer')
  detail {tracer : σ} {tracer' : τ} (e : Event) : e.isDetail = true → R tracer tracer' →
    R (Tracer.detail e tracer) (Tracer.detail e tracer')
  message {tracer : σ} {tracer' : τ} (m : Message) : R tracer tracer' →
    R (Tracer.message m tracer) (Tracer.message m tracer')

instance [Tracer σ] [Tracer τ] : Tracer.Keeps fun (_ : σ) (_ : τ) => True :=
  ⟨fun _ _ _ => trivial, fun _ _ _ => trivial, fun _ _ => trivial⟩

/-- A conflict that was found is with a clause of the database. -/
def Database.Has (db : Database) (conflict : Option Nat) : Prop := ∀ id, conflict = some id → id < db.size

theorem Database.has_none (db : Database) : db.Has none := nofun

theorem Database.has_some {db : Database} {id : Nat} (inBounds : id < db.size) : db.Has (some id) := by
  rintro _ ⟨⟩
  exact inBounds

/-- The workspaces differ in nothing but their tracers, which are related. -/
structure Workspace.Tied (R : σ → τ → Prop) (work : Workspace σ) (work' : Workspace τ) : Prop where
  db_eq : work.db = work'.db
  trail_eq : work.trail = work'.trail
  stats_eq : work.stats = work'.stats
  tracers : R work.tracer work'.tracer

/-- The watched workspaces differ in nothing but their tracers, which are related. -/
structure WatchedWorkspace.Tied (R : σ → τ → Prop) (state : WatchedWorkspace σ)
    (state' : WatchedWorkspace τ) : Prop where
  watches_eq : state.watches = state'.watches
  work : state.work.Tied R state'.work

/-- The visits have the same outcome but for tracers. -/
inductive Visit.Tied (R : σ → τ → Prop) : Visit σ → Visit τ → Prop
  | kept {watcher : Watcher} {state : WatchedWorkspace σ} {state' : WatchedWorkspace τ} :
      state.Tied R state' → Tied R (.kept watcher state) (.kept watcher state')
  | moved {state : WatchedWorkspace σ} {state' : WatchedWorkspace τ} :
      state.Tied R state' → Tied R (.moved state) (.moved state')
  | falsified {watcher : Watcher} {state : WatchedWorkspace σ} {state' : WatchedWorkspace τ} :
      state.Tied R state' → state.work.db.Has (some watcher.clause) →
      Tied R (.falsified watcher state) (.falsified watcher state')

variable [Tracer σ] [Tracer τ] {R : σ → τ → Prop}

section Propagation
variable {work : Workspace σ} {work' : Workspace τ} {state : WatchedWorkspace σ}
  {state' : WatchedWorkspace τ}

omit [Tracer σ] [Tracer τ] in
theorem Workspace.Tied.status_eq (tied : work.Tied R work') (id : Nat) :
    work.status id = work'.status id := by
  rw [Workspace.status, Workspace.status, tied.db_eq, tied.trail_eq]

omit [Tracer σ] [Tracer τ] in
theorem Workspace.Tied.reorder (tied : work.Tied R work') (id : Nat) (lits : List Lit) :
    (work.reorder id lits).Tied R (work'.reorder id lits) :=
  ⟨congrArg (fun db => db.reorder id lits) tied.db_eq, tied.trail_eq, tied.stats_eq, tied.tracers⟩

variable [Tracer.Keeps R]

/-- A clause of the database is reported to both tracers, as far as they want to know. -/
theorem Workspace.Tied.imply {id : Nat} (tied : work.Tied R work') (l : Lit) (inBounds : id < work.db.size) :
    Lockstep (Workspace.Tied R) (work.imply l id) (work'.imply l id) := by
  obtain ⟨db, t, stats, tracer⟩ := work
  obtain ⟨_, _, _, tracer'⟩ := work'
  obtain ⟨rfl, rfl, rfl, (tracers : R tracer tracer')⟩ := tied
  refine Lockstep.bind_same fun _ _ => ?_
  rw [Database.report_of_lt inBounds, Database.report_of_lt inBounds]
  exact ⟨rfl, rfl, rfl, Tracer.Keeps.detail _ rfl tracers⟩

theorem Workspace.Tied.settle (pending : List Nat) (tied : work.Tied R work') :
    Lockstep (fun r r' => r.1 = r'.1 ∧ r.2.1 = r'.2.1 ∧ r.2.2.Tied R r'.2.2 ∧ r.2.2.db.Has r.1)
      (Propagator.settle pending work) (Propagator.settle pending work') := by
  induction pending generalizing work work' with
  | nil => exact ⟨rfl, rfl, tied, Database.has_none _⟩
  | cons id rest ih =>
    rw [Propagator.settle, Propagator.settle, tied.status_eq]
    refine Lockstep.bind_same fun status found => ?_
    have inBounds : id < work.db.size := tied.db_eq ▸ Database.lt_size_of_status found
    cases status with
    | conflicting => exact ⟨rfl, rfl, tied, Database.has_some inBounds⟩
    | unit l => exact (tied.imply l inBounds).bind fun _ _ tied => ih tied
    | satisfied => exact ih tied
    | unresolved => exact ih tied

theorem Workspace.Tied.rescanPass (ids : List Nat) (tied : work.Tied R work') :
    Lockstep (fun r r' => r.1 = r'.1 ∧ r.2.Tied R r'.2 ∧ r.2.db.Has r.1) (rescanPass ids work)
      (rescanPass ids work') := by
  rw [Propagator.rescanPass_eq_settle, Propagator.rescanPass_eq_settle]
  exact (tied.settle ids).bind fun _ _ ⟨conflict, _, tied', has⟩ => ⟨conflict, tied', has⟩

theorem Workspace.Tied.rescanPasses (passes : Nat) (tied : work.Tied R work') :
    Lockstep (fun r r' => r.1 = r'.1 ∧ r.2.Tied R r'.2 ∧ r.2.db.Has r.1) (rescanPasses passes work)
      (rescanPasses passes work') := by
  induction passes generalizing work work' with
  | zero => exact rfl
  | succ passes ih =>
    rw [ClauseLearning.rescanPasses, ClauseLearning.rescanPasses, tied.db_eq, tied.trail_eq]
    apply (tied.rescanPass _).bind
    rintro ⟨conflict, middle⟩ ⟨_, middle'⟩ ⟨rfl, (tied' : middle.Tied R middle'), has⟩
    cases conflict with
    | some id => exact ⟨rfl, tied', has⟩
    | none =>
      simp only [tied'.trail_eq]
      split
      · exact ⟨rfl, tied', has⟩
      · exact ih tied'

theorem WatchedWorkspace.Tied.visit (tied : state.Tied R state') (failed : Lit)
    (watcher : Watcher) :
    Lockstep (Visit.Tied R) (state.visit failed watcher) (state'.visit failed watcher) := by
  obtain ⟨watches, work⟩ := state
  obtain ⟨_, work'⟩ := state'
  obtain ⟨rfl, (tied : work.Tied R work')⟩ := tied
  simp only [WatchedWorkspace.visit, tied.db_eq, tied.trail_eq]
  refine Lockstep.bind_same fun blocked _ => ?_
  split
  · exact .kept ⟨rfl, tied⟩
  refine Lockstep.bind_same fun clause listed => Lockstep.bind_same fun (first, rest) _ =>
    Lockstep.bind_same fun value _ => Lockstep.bind_same fun replaced _ => ?_
  -- The clause has been read by now, so that a report of it fails for neither tracer.
  have inBounds (lits : List Lit) : watcher.clause < (work.reorder watcher.clause lits).db.size := by
    have size : (work.reorder watcher.clause lits).db.size = work.db.size := Array.size_modify ..
    rw [size, tied.db_eq]
    exact Database.lt_size_of_clause listed
  cases replaced with
  | some found => exact Lockstep.bind_same fun _ _ => .moved ⟨rfl, tied.reorder _ _⟩
  | none =>
    cases value with
    | holds => exact .kept ⟨rfl, tied.reorder _ _⟩
    | unknown =>
      refine ((tied.reorder _ _).imply first (inBounds _)).bind fun _ _ tied' => ?_
      exact .kept ⟨rfl, tied'⟩
    | fails => exact .falsified ⟨rfl, tied.reorder _ _⟩ (Database.has_some (inBounds _))

theorem WatchedWorkspace.Tied.visitAll (failed : Lit) (watchers : List Watcher)
    (tied : state.Tied R state') :
    Lockstep (fun r r' => r.1 = r'.1 ∧ r.2.1 = r'.2.1 ∧ r.2.2.Tied R r'.2.2 ∧ r.2.2.work.db.Has r.1)
      (visitAll failed watchers state) (visitAll failed watchers state') := by
  induction watchers generalizing state state' with
  | nil => exact ⟨rfl, rfl, tied, Database.has_none _⟩
  | cons watcher rest ih =>
    rw [WatchedWorkspace.visitAll, WatchedWorkspace.visitAll]
    apply (tied.visit failed watcher).bind
    rintro _ _ (tied' | tied' | ⟨tied', has⟩)
    · apply (ih tied').bind
      rintro ⟨conflict, kept, middle⟩ ⟨_, _, middle'⟩ ⟨rfl, rfl, tied''⟩
      exact ⟨rfl, rfl, tied''⟩
    · exact ih tied'
    · exact ⟨rfl, rfl, tied', has⟩

theorem WatchedWorkspace.Tied.propagateLit (tied : state.Tied R state') (l : Lit) :
    Lockstep (fun r r' => r.1 = r'.1 ∧ r.2.Tied R r'.2 ∧ r.2.work.db.Has r.1) (propagateLit state l)
      (propagateLit state' l) := by
  obtain ⟨watches, work⟩ := state
  obtain ⟨_, work'⟩ := state'
  obtain ⟨rfl, tied⟩ := tied
  refine Lockstep.bind_same fun watchers _ => Lockstep.bind_same fun watches _ => ?_
  have start : WatchedWorkspace.Tied R ⟨watches, work⟩ ⟨watches, work'⟩ := ⟨rfl, tied⟩
  apply (start.visitAll l.negate watchers).bind
  rintro ⟨conflict, kept, ⟨swept, work⟩⟩ ⟨_, _, ⟨_, work'⟩⟩ ⟨rfl, rfl, ⟨rfl, tied'⟩, has⟩
  exact Lockstep.bind_same fun _ _ => ⟨rfl, ⟨rfl, tied'⟩, has⟩

theorem WatchedWorkspace.Tied.drain (steps : Nat) (tied : state.Tied R state') :
    Lockstep (fun r r' => r.1 = r'.1 ∧ r.2.Tied R r'.2 ∧ r.2.work.db.Has r.1) (drain steps state)
      (drain steps state') := by
  induction steps generalizing state state' with
  | zero => exact rfl
  | succ steps ih =>
    obtain ⟨watches, ⟨db, t, stats, tracer⟩⟩ := state
    obtain ⟨_, ⟨_, _, _, tracer'⟩⟩ := state'
    obtain ⟨rfl, rfl, rfl, rfl, (tracers : R tracer tracer')⟩ := tied
    simp only [WatchedWorkspace.drain]
    split
    · exact ⟨rfl, ⟨rfl, rfl, rfl, rfl, tracers⟩, Database.has_none _⟩
    · rename_i l moved _
      have moved : WatchedWorkspace.Tied R ⟨watches, ⟨db, moved, stats, tracer⟩⟩
          ⟨watches, ⟨db, moved, stats, tracer'⟩⟩ := ⟨rfl, rfl, rfl, rfl, tracers⟩
      apply (moved.propagateLit l).bind
      rintro ⟨conflict, state⟩ ⟨_, state'⟩ ⟨rfl, tied', has⟩
      cases conflict with
      | some id =>
        exact ⟨rfl, ⟨tied'.watches_eq, tied'.work.db_eq,
          congrArg Trail.skipPropagation tied'.work.trail_eq, tied'.work.stats_eq, tied'.work.tracers⟩, has⟩
      | none => exact ih tied'

/-- Propagation does not depend on the tracer. -/
theorem Workspace.Tied.propagate (tied : work.Tied R work') (p : Propagator) :
    Lockstep (fun r r' => r.conflict = r'.conflict ∧ r.propagator = r'.propagator ∧
      r.work.Tied R r'.work ∧ r.work.db.Has r.conflict) (p.propagate work) (p.propagate work') := by
  obtain ⟨mode, watches, pending⟩ := p
  cases mode with
  | rescan =>
    rw [Propagator.propagate, Propagator.propagate, rescan, rescan, tied.trail_eq]
    apply (tied.rescanPasses _).bind
    rintro ⟨conflict, middle⟩ ⟨_, middle'⟩ ⟨rfl, tied'⟩
    exact ⟨rfl, rfl, tied'⟩
  | watchedLiterals =>
    apply (tied.settle pending).bind
    rintro ⟨conflict, left, middle⟩ ⟨_, _, middle'⟩ ⟨rfl, rfl, (tied' : middle.Tied R middle'), has⟩
    cases conflict with
    | some id =>
      exact ⟨rfl, rfl, ⟨tied'.db_eq, congrArg Trail.skipPropagation tied'.trail_eq, tied'.stats_eq,
        tied'.tracers⟩, has⟩
    | none =>
      simp only [tied'.trail_eq]
      have start : WatchedWorkspace.Tied R ⟨watches, middle⟩ ⟨watches, middle'⟩ := ⟨rfl, tied'⟩
      apply (start.drain _).bind
      rintro ⟨conflict, ⟨watches, work⟩⟩ ⟨_, ⟨_, work'⟩⟩ ⟨rfl, ⟨rfl, tied''⟩, has⟩
      exact ⟨rfl, rfl, tied'', has⟩

end Propagation

end ClauseLearning
