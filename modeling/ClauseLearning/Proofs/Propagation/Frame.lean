import ClauseLearning.Observation.Recorder
import ClauseLearning.Proofs.Propagation.Drain
import ClauseLearning.Proofs.Propagation.Rescan
import ClauseLearning.Proofs.Trail.InUse
import ClauseLearning.Propagation.Propagator
import Mathlib.Data.Set.Insert

/-! # What propagation leaves alone

Propagation does not need a state of the search. Whatever the reasons on the trail are, whichever clauses
are attached, whatever is pending and wherever the cursor stands, a call ends without a fault as long as
the watch lists are those of the attached clauses. It adds implied literals on top of the trail, counts
them, and permutes the literals inside clauses; all else stays as it is.
-/

namespace ClauseLearning

variable {σ : Type}

/-- The numbers of the clauses in visiting order, read off the kinds of the clauses. -/
theorem Database.ids_eq_of_kinds (db : Database) : db.ids =
    let kinds := (db.clauses.map Clause.kind).toList.zipIdx
    (kinds.filter (fun entry => entry.1 = .input) ++
      kinds.filter (fun entry => entry.1 ≠ .input)).map Prod.snd := by
  have isInput : (fun entry : ClauseKind × Nat => decide (entry.1 = .input)) ∘
      Prod.map Clause.kind id = fun entry : Clause × Nat => !entry.1.isLearned := by
    funext ⟨⟨lits, kind⟩, place⟩
    cases kind <;> simp [Clause.isLearned]
  have isLearned : (fun entry : ClauseKind × Nat => decide (entry.1 ≠ .input)) ∘
      Prod.map Clause.kind id = fun entry : Clause × Nat => entry.1.isLearned := by
    funext ⟨⟨lits, kind⟩, place⟩
    cases kind <;> simp [Clause.isLearned]
  simp only [ids, numbered, Array.toList_map, List.zipIdx_map, List.filter_map, isInput, isLearned,
    List.map_append, List.map_map]
  rfl

variable [Tracer σ]

/-- One workspace comes from the other by implying literals of open variables at the current level, by
counting them, and by permuting the literals inside clauses. -/
structure Workspace.Framed (work work' : Workspace σ) : Prop where
  /-- The assignments made before stay where they are, below what was implied and counted. -/
  grown : ∃ added : List Assignment,
    work'.trail.entries.toList = work.trail.entries.toList ++ added ∧
    (∀ a ∈ added, a.level = work.trail.level ∧ ∃ id, a.reason = .implied id) ∧
    work'.stats = { work.stats with propagations := work.stats.propagations + added.length }
  /-- An assignment is made while its variable has no other. -/
  fresh : ∀ earlier a later, work'.trail.entries.toList = earlier ++ a :: later →
    ∀ b ∈ earlier, b.var ≠ a.var
  level_eq : work'.trail.level = work.trail.level
  ids_eq : work'.db.ids = work.db.ids
  kinds_eq : work'.db.clauses.map Clause.kind = work.db.clauses.map Clause.kind
  perm : ∀ id, (work'.db.litsOf id).Perm (work.db.litsOf id)

omit [Tracer σ] in
/-- Whatever advances a workspace with a coherent trail to another one keeps to the frame. -/
theorem Workspace.Advanced.framed {work work' : Workspace σ} (advanced : work.Advanced work')
    (coherent : work.trail.Coherent) (coherent' : work'.trail.Coherent) : work.Framed work' := by
  have levelEq : work'.trail.level = work.trail.level := by
    rw [coherent'.level_eq, coherent.level_eq, advanced.height_eq]
  have idsEq : work'.db.ids = work.db.ids := by
    rw [Database.ids_eq_of_kinds, Database.ids_eq_of_kinds work.db, advanced.reordered.kinds_eq]
  obtain ⟨added, grown, implied⟩ := advanced.grown
  have entries : work'.trail.entries.toList = work.trail.entries.toList ++ added.reverse := by
    have reversed := congrArg List.reverse grown
    rwa [Trail.stack, Trail.stack, List.reverse_append, List.reverse_reverse, List.reverse_reverse]
      at reversed
  have sizes : work'.trail.size - work.trail.size = added.reverse.length := by
    have lengths := congrArg List.length entries
    simp only [List.length_append, Array.length_toList] at lengths
    simp only [Trail.size]
    omega
  refine ⟨⟨added.reverse, entries, ?_, sizes ▸ advanced.counted⟩, ?_, levelEq, idsEq,
    advanced.reordered.kinds_eq, advanced.reordered.perm⟩
  · intro a member
    obtain ⟨level, notDecision⟩ := implied a (List.mem_reverse.mp member)
    refine ⟨level.trans coherent.level_eq.symm, ?_⟩
    cases reason : a.reason with
    | decision => simp [Assignment.isDecision, reason] at notDecision
    | implied id => exact ⟨id, rfl⟩
  · intro earlier a later same b member
    have suffix : a :: earlier.reverse <:+ work'.trail.stack := by
      refine ⟨later.reverse, ?_⟩
      simp [Trail.stack, same]
    exact (coherent'.stacked.suffix suffix).fresh b (List.mem_reverse.mpr member)

namespace Propagator

/-- What a call asks for: a coherent trail, clauses that are well formed over its variables, and, along
watch lists, the lists of the attached clauses and numbers of clauses pending. -/
structure Callable (p : Propagator) (attached : Set Nat) (work : Workspace σ) : Prop where
  coherent : work.trail.Coherent
  wellFormed : work.db.WellFormed work.trail.varCount
  covers : p.mode = .watchedLiterals → p.watches.Covers work.trail.varCount
  placed : p.mode = .watchedLiterals → Placed work.db attached p.watches.listOf
  pending : p.mode = .watchedLiterals → ∀ id ∈ p.pending, id < work.db.size

/-- One clause over two variables and one over three. -/
def twoClauses : Database :=
  ⟨#[⟨[⟨0, true⟩, ⟨1, false⟩], .input⟩, ⟨[⟨0, true⟩, ⟨2, false⟩, ⟨3, false⟩], .learned 0⟩]⟩

/-- The watch lists of the first of the two clauses. Its watchers have the same blocker. -/
def watchesOfOne : WatchTable :=
  ⟨#[[⟨0, ⟨0, true⟩⟩], [], [], [⟨0, ⟨0, true⟩⟩], [], [], [], []]⟩

private theorem twoClauses_wellFormed : twoClauses.WellFormed 4 := by
  refine ⟨by decide, ?_, ?_⟩
  · rintro (_ | _ | id)
    · decide
    · decide
    · exact .nil
  · rintro (_ | _ | id)
    · decide
    · decide
    · rintro l ⟨⟩

private theorem watchesOfOne_listOf (l : Lit) : watchesOfOne.listOf l =
    if l = ⟨0, false⟩ ∨ l = ⟨1, true⟩ then [⟨0, ⟨0, true⟩⟩] else [] := by
  obtain ⟨var, negative⟩ := l
  match var with
  | 0 | 1 | 2 | 3 => cases negative <;> rfl
  | var + 4 =>
    have outOfBounds : watchesOfOne.lists.size ≤ Lit.code ⟨var + 4, negative⟩ := by
      simp only [watchesOfOne, Lit.code, List.size_toArray, List.length_cons, List.length_nil]
      omega
    rw [WatchTable.listOf, Array.getD_eq_getD_getElem?, Array.getElem?_eq_none outOfBounds,
      if_neg (by simp)]
    rfl

private theorem twoClauses_watches_iff (l : Lit) :
    twoClauses.Watches 0 l.negate ↔ l = ⟨0, false⟩ ∨ l = ⟨1, true⟩ := by
  rw [Database.watches_iff_of_eq (show twoClauses.litsOf 0 = [⟨0, true⟩, ⟨1, false⟩] from rfl),
    ← Lit.negate_negate ⟨0, true⟩, ← Lit.negate_negate ⟨1, false⟩]
  exact or_congr ⟨Lit.negate_injective, congrArg Lit.negate⟩ ⟨Lit.negate_injective, congrArg Lit.negate⟩

private theorem watchesOfOne_placed : Placed twoClauses {0} watchesOfOne.listOf := by
  refine ⟨fun l => ?_, fun l id => ?_, fun l w listed => ?_⟩
  · rw [watchesOfOne_listOf]
    split <;> simp
  · rw [watchesOfOne_listOf, Set.mem_singleton_iff]
    split
    · rename_i here
      simp only [List.map_cons, List.map_nil, List.mem_singleton]
      exact ⟨fun same => ⟨same, same ▸ (twoClauses_watches_iff l).mpr here⟩, And.left⟩
    · rename_i elsewhere
      refine iff_of_false List.not_mem_nil ?_
      rintro ⟨rfl, watches⟩
      exact elsewhere ((twoClauses_watches_iff l).mp watches)
  · rw [watchesOfOne_listOf] at listed
    split at listed
    · rw [List.mem_singleton.mp listed]
      decide
    · cases listed

/-- A call ends without a fault and keeps to the frame, whether it finds a falsified clause or not. What
it asks for holds again afterwards, of the same attached clauses. -/
theorem propagate_framed {p : Propagator} {attached : Set Nat} {work : Workspace σ}
    (callable : p.Callable attached work) :
    ∃ result, p.propagate work = .ok result ∧ work.Framed result.work ∧
      (p.mode = .rescan → result.work.db = work.db) ∧ result.propagator.mode = p.mode ∧
      result.propagator.Callable attached result.work := by
  obtain ⟨coherent, wellFormed, covers, placed, pending⟩ := callable
  have orderly : work.Orderly := ⟨coherent, wellFormed⟩
  obtain ⟨mode, watches, ids⟩ := p
  cases mode with
  | rescan =>
    obtain ⟨⟨conflict, work'⟩, scanned, steady⟩ :=
      rescanPasses_tends orderly (work.trail.varCount + 1) (by omega)
    refine ⟨⟨conflict, ⟨.rescan, watches, ids⟩, work'⟩, ?_,
      steady.advanced.framed coherent steady.orderly.coherent, fun _ => steady.db_eq, rfl,
      ⟨steady.orderly.coherent, steady.orderly.wellFormed, by simp, by simp, by simp⟩⟩
    rw [propagate, rescan, scanned]
    rfl
  | watchedLiterals =>
    obtain ⟨⟨found, left, middle⟩, settled, considered⟩ := settle_tends ids orderly (pending rfl)
    have middleOrderly := considered.orderly
    have advanced := considered.advanced
    have dbEq : middle.db = work.db := considered.db_eq
    have middleCovers : watches.Covers middle.trail.varCount := advanced.varCount_eq ▸ covers rfl
    have later : ∀ id ∈ left, id < work.db.size :=
      fun id member => pending rfl id (considered.left_suffix.subset member)
    cases found with
    | some id =>
      obtain ⟨skipped, skips⟩ :=
        middleOrderly.moveCursor middleOrderly.coherent.skipPropagation rfl rfl
      refine ⟨⟨some id, ⟨.watchedLiterals, watches, left⟩, _⟩, ?_,
        (advanced.trans skips).framed coherent skipped.coherent, by simp, rfl,
        ⟨skipped.coherent, skipped.wellFormed, fun _ => middleCovers, fun _ => dbEq ▸ placed rfl,
          fun _ => dbEq ▸ later⟩⟩
      rw [propagate, settled]
      rfl
    | none =>
      obtain ⟨⟨conflict, ⟨watches', work'⟩⟩, drained, exhausted⟩ :=
        WatchedWorkspace.drain_tends (middle.trail.varCount + 1) ⟨watches, middle⟩
          middleOrderly middleCovers (dbEq ▸ placed rfl) (by simp only; omega)
      have tended := exhausted.tended
      have onward := advanced.trans tended.advanced
      refine ⟨⟨conflict, ⟨.watchedLiterals, watches', left⟩, work'⟩, ?_,
        onward.framed coherent tended.orderly.coherent, by simp, rfl,
        ⟨tended.orderly.coherent, tended.orderly.wellFormed, fun _ => tended.covers,
          fun _ => exhausted.placed, fun _ => onward.reordered.size_eq ▸ later⟩⟩
      rw [propagate, settled, ok_bind]
      simp only [drained]
      rfl

/-- No reason on the trail is a clause that forces the literal, one clause is not attached but pending
twice, and the blocker of a watcher is the literal that it watches. -/
theorem propagate_framed_unreachable : ∃ (p : Propagator) (work : Workspace Unit),
    work.trail.cursor = 1 ∧ work.trail.size = 2 ∧ ¬ Grounded work.db work.trail.stack ∧
      p.pending = [1, 1] ∧ ¬ Watching work.db p.watches.listOf ∧ p.Callable {0} work ∧
      ∃ result, p.propagate work = .ok result ∧ work.Framed result.work ∧
        (p.mode = .rescan → result.work.db = work.db) ∧ result.propagator.mode = p.mode ∧
        result.propagator.Callable {0} result.work := by
  obtain ⟨t, inUse, entries, cursor⟩ : ∃ t : Trail, t.InUse 4 ∧
      t.entries = #[⟨⟨2, true⟩, 0, .implied 1⟩, ⟨⟨0, false⟩, 0, .implied 9⟩] ∧ t.cursor = 1 :=
    ⟨_, ((Trail.InUse.empty.imply ⟨2, true⟩ 1 rfl).nextToPropagate rfl).imply ⟨0, false⟩ 9 rfl,
      by decide, rfl⟩
  obtain ⟨coherent, varCount⟩ := inUse.coherent
  have stack : t.stack = [⟨⟨0, false⟩, 0, .implied 9⟩, ⟨⟨2, true⟩, 0, .implied 1⟩] := by
    simp [Trail.stack, entries]
  have callable : Callable ⟨.watchedLiterals, watchesOfOne, [1, 1]⟩ {0}
      (⟨twoClauses, t, {}, ()⟩ : Workspace Unit) := by
    refine ⟨coherent, varCount ▸ twoClauses_wellFormed, fun _ => ?_, fun _ => watchesOfOne_placed,
      fun _ => ?_⟩
    · rw [varCount]
      rfl
    · simp [twoClauses, Database.size]
  have ungrounded : ¬ Grounded twoClauses [⟨⟨0, false⟩, 0, .implied 9⟩, ⟨⟨2, true⟩, 0, .implied 1⟩] := by
    decide
  refine ⟨_, _, cursor, ?_, stack ▸ ungrounded, rfl, ?_, callable, propagate_framed callable⟩
  · simp [Trail.size, entries]
  · intro watching
    exact (watching.blocked ⟨0, false⟩ ⟨0, ⟨0, true⟩⟩ (by simp [watchesOfOne_listOf])).2 rfl

end Propagator

end ClauseLearning
