import ClauseLearning.Proofs.Conflict.Grounded
import ClauseLearning.Proofs.Trail.Return
import ClauseLearning.Propagation.Workspace

/-! # What propagation may change

Propagation, in either form, does two things to its workspace: it puts literals on the trail that a
clause forces at the current level, and it reorders the literals of clauses. `Sound` is what has to
hold of the workspace before and after, and `Advanced` is the frame of any number of such changes: the
stack before is the lower part of the stack after, and of the counters only that of propagations moves.
-/

namespace ClauseLearning.Workspace

variable {σ : Type}

/-- The trail is coherent, the clauses are well formed over its variables, and what is implied is
grounded in them. -/
structure Sound (work : Workspace σ) : Prop where
  coherent : work.trail.Coherent
  wellFormed : work.db.WellFormed work.trail.varCount
  grounded : Grounded work.db work.trail.stack

/-- The trail is coherent and the clauses are well formed over its variables, whatever the reasons of the
assignments are. -/
structure Orderly (work : Workspace σ) : Prop where
  coherent : work.trail.Coherent
  wellFormed : work.db.WellFormed work.trail.varCount

theorem Sound.orderly {work : Workspace σ} (sound : work.Sound) : work.Orderly :=
  ⟨sound.coherent, sound.wellFormed⟩

theorem Orderly.sound {work : Workspace σ} (orderly : work.Orderly)
    (grounded : Grounded work.db work.trail.stack) : work.Sound :=
  ⟨orderly.coherent, orderly.wellFormed, grounded⟩

structure Falsified (work : Workspace σ) (id : Nat) : Prop where
  inBounds : id < work.db.size
  fails : ∀ l ∈ work.db.litsOf id, l.FailsOn work.trail.stack

/-- One workspace comes from the other by reordering clauses and by implying literals. -/
structure Advanced (work work' : Workspace σ) : Prop where
  reordered : work.db.Reordered work'.db
  varCount_eq : work'.trail.varCount = work.trail.varCount
  /-- What was added on top was implied, at the level that was current before. -/
  grown : ∃ added, work'.trail.stack = added ++ work.trail.stack ∧
    ∀ a ∈ added, a.level = height work.trail.stack ∧ a.isDecision = false
  counted : work'.stats = { work.stats with
    propagations := work.stats.propagations + (work'.trail.size - work.trail.size) }

namespace Advanced
variable {work work' work'' : Workspace σ} {k : Nat}

theorem refl (work : Workspace σ) : work.Advanced work :=
  ⟨.refl _, rfl, ⟨[], rfl, by simp⟩, by simp⟩

theorem suffix (advanced : work.Advanced work') : work.trail.stack <:+ work'.trail.stack := by
  obtain ⟨added, same, -⟩ := advanced.grown
  exact ⟨added, same.symm⟩

theorem subset (advanced : work.Advanced work') : work.trail.stack ⊆ work'.trail.stack :=
  advanced.suffix.subset

theorem size_le (advanced : work.Advanced work') : work.trail.size ≤ work'.trail.size := by
  simpa using advanced.suffix.length_le

theorem height_eq (advanced : work.Advanced work') :
    height work'.trail.stack = height work.trail.stack := by
  obtain ⟨added, same, level⟩ := advanced.grown
  rw [same]
  cases added with
  | nil => rfl
  | cons a added => exact (level a (List.mem_cons_self ..)).1

/-- Nothing changes below the current level. -/
theorem cut_eq (advanced : work.Advanced work') (below : k < height work.trail.stack) :
    cut k work'.trail.stack = cut k work.trail.stack := by
  obtain ⟨added, same, level⟩ := advanced.grown
  rw [same]
  exact cut_append_of_lt (fun a member => (level a member).1 ▸ below) _

/-- Nothing was implied if the trail did not get longer. -/
theorem stack_eq_of_size_eq (advanced : work.Advanced work')
    (same : work'.trail.size = work.trail.size) : work'.trail.stack = work.trail.stack :=
  (advanced.suffix.eq_of_length (by simpa using same.symm)).symm

/-- What some literal satisfies stays satisfied. -/
theorem metOn (advanced : work.Advanced work') {id : Nat} (met : work.db.MetOn id work.trail.stack) :
    work'.db.MetOn id work'.trail.stack :=
  (met.mono advanced.subset).reordered advanced.reordered

theorem trans (first : work.Advanced work') (second : work'.Advanced work'') :
    work.Advanced work'' := by
  refine ⟨first.reordered.trans second.reordered, second.varCount_eq.trans first.varCount_eq, ?_, ?_⟩
  · have heights := first.height_eq
    obtain ⟨added, same, level⟩ := first.grown
    obtain ⟨added', same', level'⟩ := second.grown
    refine ⟨added' ++ added, by rw [same', same, List.append_assoc], ?_⟩
    intro a member
    rcases List.mem_append.mp member with late | early
    · exact heights ▸ level' a late
    · exact level a early
  · have shorter := first.size_le
    have shorter' := second.size_le
    rw [second.counted, first.counted]
    simp only [Statistics.mk.injEq, true_and, and_true]
    omega

end Advanced

section Operations
variable {work : Workspace σ} {id : Nat} {l : Lit}

/-- Putting the literals of a clause into another order is no loss. -/
theorem Orderly.reorder (orderly : work.Orderly) {lits : List Lit} (inBounds : id < work.db.size)
    (perm : lits.Perm (work.db.litsOf id)) :
    (work.reorder id lits).Orderly ∧ work.Advanced (work.reorder id lits) := by
  have reordered := Database.reordered_reorder inBounds perm
  refine ⟨⟨orderly.coherent, reordered.wellFormed orderly.wellFormed⟩, reordered, rfl,
    ⟨[], rfl, by simp⟩, ?_⟩
  simp [Workspace.reorder]

/-- Where the cursor stands matters to watch-list propagation only. -/
theorem Orderly.moveCursor (orderly : work.Orderly) {t : Trail} (coherent : t.Coherent)
    (stack_eq : t.stack = work.trail.stack) (varCount_eq : t.varCount = work.trail.varCount) :
    Orderly { work with trail := t } ∧ work.Advanced { work with trail := t } := by
  have size_eq : t.size = work.trail.size := by
    rw [← Trail.length_stack, stack_eq, Trail.length_stack]
  exact ⟨⟨coherent, varCount_eq ▸ orderly.wellFormed⟩, .refl _, varCount_eq,
    ⟨[], stack_eq, by simp⟩, by simp [size_eq]⟩

theorem Sound.moveCursor (sound : work.Sound) {t : Trail} (coherent : t.Coherent)
    (stack_eq : t.stack = work.trail.stack) (varCount_eq : t.varCount = work.trail.varCount) :
    Sound { work with trail := t } ∧ work.Advanced { work with trail := t } := by
  obtain ⟨orderly, advanced⟩ := sound.orderly.moveCursor coherent stack_eq varCount_eq
  refine ⟨⟨orderly.coherent, orderly.wellFormed, ?_⟩, advanced⟩
  simp only [stack_eq]
  exact sound.grounded

/-- A decision needs no reason. -/
theorem Sound.made (sound : work.Sound) {a : Assignment} {t : Trail} (decision : a.reason = .decision)
    (made : Trail.Coherent.Made work.trail a t) : Sound { work with trail := t } := by
  refine ⟨made.coherent, made.varCount_eq.symm ▸ sound.wellFormed, ?_⟩
  simp only [made.stack_eq]
  exact ⟨supported_decision work.db work.trail.stack decision, sound.grounded⟩

/-- What is left by a return was there before what is taken back. -/
theorem Sound.returned (sound : work.Sound) {k : Nat} {t : Trail}
    (returned : Trail.Coherent.Returned work.trail k t) : Sound { work with trail := t } := by
  refine ⟨returned.coherent, returned.varCount_eq.symm ▸ sound.wellFormed, ?_⟩
  simp only [returned.stack_eq]
  exact sound.grounded.suffix (cut_suffix k work.trail.stack)

/-- A clause more is one that nothing was forced by yet. -/
theorem Sound.extended (sound : work.Sound) {lits : List Lit} {db : Database}
    (extended : work.db.Extended lits db) (nonempty : lits ≠ []) (distinct : lits.Nodup)
    (inRange : ∀ l ∈ lits, l.var < work.trail.varCount) : Sound { work with db } :=
  ⟨sound.coherent, extended.wellFormed sound.wellFormed nonempty distinct inRange,
    sound.grounded.extended extended⟩

theorem Orderly.status_yields (orderly : work.Orderly) (inBounds : id < work.db.size) :
    Yields (work.status id) fun status => status.Describes work.trail.stack (work.db.litsOf id) :=
  Database.status_yields orderly.coherent orderly.wellFormed inBounds

theorem Sound.status_yields (sound : work.Sound) (inBounds : id < work.db.size) :
    Yields (work.status id) fun status => status.Describes work.trail.stack (work.db.litsOf id) :=
  sound.orderly.status_yields inBounds

variable [Tracer σ]

/-- A literal whose variable is not assigned can be implied, whatever clause is given as the reason. -/
theorem Orderly.imply_yields (orderly : work.Orderly) (inRange : l.var < work.trail.varCount)
    (isOpen : l.OpenOn work.trail.stack) (inBounds : id < work.db.size) :
    Yields (work.imply l id) fun work' => work'.Orderly ∧ work.Advanced work' ∧ work'.db = work.db ∧
      work'.trail.stack = ⟨l, height work.trail.stack, .implied id⟩ :: work.trail.stack ∧
      work'.trail.cursor = work.trail.cursor := by
  obtain ⟨db, trail, stats, tracer⟩ := work
  apply (orderly.coherent.imply_yields inRange isOpen id).bind
  intro trail' made
  rw [Database.report_of_lt inBounds]
  have size : trail'.size = trail.size + 1 := by
    rw [← Trail.length_stack, made.stack_eq]
    simp
  refine yields_pure_iff.mpr ⟨⟨made.coherent, ?_⟩, ⟨.refl _, made.varCount_eq, ?_, ?_⟩, rfl,
    made.stack_eq, made.cursor_eq⟩
  · exact made.varCount_eq ▸ orderly.wellFormed
  · exact ⟨[_], made.stack_eq, by simp [Assignment.isDecision]⟩
  · simp [size]

structure Implied (work : Workspace σ) (l : Lit) (id : Nat) (work' : Workspace σ) : Prop where
  sound : work'.Sound
  advanced : work.Advanced work'
  db_eq : work'.db = work.db
  stack_eq : work'.trail.stack =
    ⟨l, height work.trail.stack, .implied id⟩ :: work.trail.stack
  cursor_eq : work'.trail.cursor = work.trail.cursor

/-- A clause whose other literals fail forces its last open literal. -/
theorem Sound.imply_yields (sound : work.Sound) (member : l ∈ work.db.litsOf id)
    (isOpen : l.OpenOn work.trail.stack)
    (fails : ∀ other ∈ work.db.litsOf id, other ≠ l → other.FailsOn work.trail.stack) :
    Yields (work.imply l id) (Implied work l id) := by
  have inBounds := Database.lt_size_of_mem member
  apply (sound.orderly.imply_yields (sound.wellFormed.inRange id l member) isOpen inBounds).imp
  rintro work' ⟨orderly, advanced, dbEq, stackEq, cursorEq⟩
  refine ⟨⟨orderly.coherent, orderly.wellFormed, ?_⟩, advanced, dbEq, stackEq, cursorEq⟩
  rw [dbEq, stackEq]
  exact sound.grounded.implied _ member fails

end Operations

end ClauseLearning.Workspace
