import ClauseLearning.Observation.Recorder
import ClauseLearning.Proofs.Propagation.Attachment
import ClauseLearning.Proofs.Propagation.Closure

/-! # Propagation in any course of use

`Course` lists how a caller may use propagation along watch lists: attach clauses to an empty trail,
propagate, decide, go back to a lower level, which has to come next after a conflict, and store a learned
clause and propagate at once. Whatever the course, a call ends as rescanning the same clauses on the same
trail would end, and both compute the closure of the trail under unit propagation.
-/

namespace ClauseLearning

/-- What a caller of propagation did last. -/
inductive Standing where
  /-- A clause was attached to the empty trail, if anything was done at all. -/
  | loading
  /-- The latest call found no conflict, or the trail went back to a lower level. -/
  | resting
  | decided
  | learned
  /-- The latest call found a conflict. -/
  | failing

def Standing.after : Option Nat → Standing
  | none => .resting
  | some _ => .failing

/-- The trail makes a learned clause assert its first literal: all others are false, the second since the
current level, and there is a second one unless nothing has been decided. -/
structure Trail.Asserts (t : Trail) (first : Lit) (rest : List Lit) : Prop where
  first_unknown : t.valueOf first = .ok .unknown
  rest_false : ∀ l ∈ rest, t.valueOf l = .ok .fails
  second_level : ∀ second others, rest = second :: others → t.levelOf second.var = .ok (some t.level)
  unit_level : rest = [] → t.level = 0

/-- What the caller did last, in some course of use from an empty trail on, with the bookkeeping and the
workspace that this has led to. -/
inductive Course {σ : Type} [Tracer σ] (vars : Nat) : Standing → Propagator → Workspace σ → Prop
  | empty {p : Propagator} {stats : Statistics} {tracer : σ} :
      Propagator.empty .watchedLiterals vars = .ok p →
      Course vars .loading p ⟨{}, .empty vars, stats, tracer⟩
  | given {p p' : Propagator} {work : Workspace σ} {lits : List Lit} : Course vars .loading p work →
      lits ≠ [] → (∀ l ∈ lits, l.var < vars) →
      p.attach work.db.size (work.db.addInput lits) = .ok p' →
      Course vars .loading p' { work with db := work.db.addInput lits }
  | propagated {standing : Standing} {p : Propagator} {work : Workspace σ} {result : Propagated σ} :
      Course vars standing p work → standing ≠ .failing → p.propagate work = .ok result →
      Course vars (.after result.conflict) result.propagator result.work
  | decided {p : Propagator} {work : Workspace σ} {l : Lit} {t : Trail} : Course vars .resting p work →
      work.trail.choose l = .ok t → Course vars .decided p { work with trail := t }
  | returned {standing : Standing} {p : Propagator} {work : Workspace σ} {k : Nat} :
      Course vars standing p work → standing ≠ .learned → k < work.trail.level →
      Course vars .resting p { work with trail := work.trail.backTo k }
  | learned {standing : Standing} {p p' : Propagator} {work : Workspace σ} {first : Lit}
      {rest : List Lit} : Course vars standing p work → standing = .resting ∨ standing = .decided →
      work.trail.Asserts first rest →
      p.attach work.db.size (work.db.addLearned (first :: rest)) = .ok p' →
      Course vars .learned p' { work with db := work.db.addLearned (first :: rest) }

/-- Whatever level the trail goes back to, nothing is left to propagate there. -/
def Propagator.Returnable (p : Propagator) (db : Database) (t : Trail) : Prop :=
  ∀ k < height t.stack, ∀ t', Trail.Coherent.Returned t k t' → p.Quiet db t' (k + 1)

/-- What the caller can rely on after what it did last. -/
def Standing.Allows (vars : Nat) (p : Propagator) (db : Database) (t : Trail) : Standing → Prop
  | .loading => t = .empty vars ∧ p.Stocked db vars
  | .resting => p.Quiet db t (height t.stack + 1)
  | .decided => p.Ready db t ∧ p.pending = [] ∧ p.Returnable db t
  | .learned => p.Ready db t
  | .failing => p.Returnable db t

/-- What holds in any course of use. -/
structure Course.Kept {σ : Type} (vars : Nat) (standing : Standing) (p : Propagator)
    (work : Workspace σ) : Prop where
  sound : work.Sound
  varCount_eq : work.trail.varCount = vars
  mode_eq : p.mode = .watchedLiterals
  allows : standing.Allows vars p work.db work.trail

section Transitions
variable {p : Propagator} {db : Database} {t t' : Trail}

/-- Where nothing is left to propagate, nothing is after a return either. -/
theorem Propagator.Quiet.returnable {bound : Nat} (quiet : p.Quiet db t bound)
    (within : height t.stack ≤ bound) : p.Returnable db t :=
  fun _ below _ returned => quiet.backTo (Nat.lt_of_lt_of_le below within) returned

/-- A return takes a decision back. -/
theorem Propagator.Quiet.returnable_choose (quiet : p.Quiet db t (height t.stack + 1)) {l : Lit}
    (mode : p.mode = .watchedLiterals)
    (made : Trail.Coherent.Made t ⟨l, height t.stack + 1, .decision⟩ t') : p.Returnable db t' := by
  intro k below t'' returned
  have raised : height t'.stack = height t.stack + 1 := by
    rw [made.stack_eq]
    rfl
  have within : k < height t.stack + 1 := raised ▸ below
  have stackEq : t''.stack = cut k t.stack := by
    rw [returned.stack_eq, made.stack_eq]
    exact cut_cons_of_lt within
  refine quiet.lower within stackEq (returned.varCount_eq.trans made.varCount_eq) fun _ => ?_
  have shorter := (cut_suffix k t.stack).length_le
  rw [Trail.length_stack, ← (quiet.idle mode).ended] at shorter
  rw [returned.cursor_eq, made.cursor_eq, ← returned.stack_eq, stackEq, ← Trail.length_stack, stackEq]
  exact Nat.min_eq_right shorter

/-- Once repetitions are removed, a clause that the trail makes assert its first literal is asserting. -/
theorem Trail.Asserts.asserting {first : Lit} {rest : List Lit} (asserts : t.Asserts first rest)
    (coherent : t.Coherent) : (first :: rest).eraseDups = first :: rest.eraseDups ∧
      Asserting t.stack first rest.eraseDups := by
  have isOpen : first.OpenOn t.stack :=
    truthOn_eq_unknown_iff.mp (coherent.truthOn_eq_of_valueOf asserts.first_unknown)
  have fails : ∀ l ∈ rest, l.FailsOn t.stack := fun l member =>
    coherent.stacked.truthOn_eq_fails_iff.mp
      (coherent.truthOn_eq_of_valueOf (asserts.rest_false l member))
  have same := eraseDups_cons_of_not_mem fun member => isOpen.2 (fails first member)
  refine ⟨same, same ▸ nodup_eraseDups _, isOpen, fun l member => fails l (List.mem_eraseDups.mp member),
    ?_, ?_⟩
  · intro none
    rw [← coherent.level_eq]
    exact asserts.unit_level (eraseDups_eq_nil_iff.mp none)
  · intro second others cons k below
    cases rest with
    | nil => simp at cons
    | cons head later =>
      rw [List.eraseDups_cons] at cons
      obtain ⟨rfl, -⟩ := List.cons.inj cons
      have inRange := Coherent.var_lt_of_valueOf (asserts.rest_false head (List.mem_cons_self ..))
      exact coherent.openOn_cut_of_levelOf inRange (asserts.second_level head later rfl)
        (coherent.level_eq.symm ▸ below)

theorem Trail.Asserts.inRange {first : Lit} {rest : List Lit} (asserts : t.Asserts first rest) :
    ∀ l ∈ first :: rest, l.var < t.varCount := by
  intro l member
  rcases List.mem_cons.mp member with rfl | member
  · exact Coherent.var_lt_of_valueOf asserts.first_unknown
  · exact Coherent.var_lt_of_valueOf (asserts.rest_false l member)

end Transitions

namespace Course
variable {σ : Type} [Tracer σ] {vars : Nat} {standing : Standing} {p : Propagator}
  {work : Workspace σ}

omit [Tracer σ] in
/-- Unless a conflict is waiting for a return, propagation may begin. -/
theorem Kept.ready (kept : Kept vars standing p work) (going : standing ≠ .failing) :
    p.Ready work.db work.trail := by
  cases standing with
  | loading =>
    obtain ⟨empty, stocked⟩ := kept.allows
    exact empty ▸ stocked.ready
  | resting => exact Propagator.Quiet.ready kept.allows kept.sound.coherent
  | decided => exact kept.allows.1
  | learned => exact kept.allows
  | failing => exact (going rfl).elim

omit [Tracer σ] in
/-- A call leads to a state of rest or to a conflict, below which nothing is left to propagate. -/
theorem Kept.propagated (kept : Kept vars standing p work) {result : Propagated σ}
    (outcome : p.Outcome work result) :
    Kept vars (.after result.conflict) result.propagator result.work := by
  obtain ⟨conflict, p', work'⟩ := result
  have advanced : work.Advanced work' := outcome.advanced
  refine ⟨outcome.sound, advanced.varCount_eq.trans kept.varCount_eq,
    outcome.mode_eq.trans kept.mode_eq, ?_⟩
  cases conflict with
  | none =>
    have quiet : p'.Quiet work'.db work'.trail (height work.trail.stack + 1) := outcome.closed rfl
    rwa [← advanced.height_eq] at quiet
  | some id =>
    intro k below t returned
    have quiet := outcome.broken (by simp) (advanced.height_eq ▸ Nat.zero_lt_of_lt below)
    exact quiet.returnable (Nat.le_of_eq advanced.height_eq) k below t returned

omit [Tracer σ] in
/-- A return leads to a state of rest. -/
theorem Kept.returned (kept : Kept vars standing p work) (free : standing ≠ .learned) {k : Nat}
    (below : k < work.trail.level) :
    Kept vars .resting p { work with trail := work.trail.backTo k } := by
  have coherent := kept.sound.coherent
  rw [coherent.level_eq] at below
  have returnable : p.Returnable work.db work.trail := by
    cases standing with
    | loading =>
      rw [kept.allows.1] at below
      cases below
    | resting => exact Propagator.Quiet.returnable kept.allows (Nat.le_succ _)
    | decided => exact kept.allows.2.2
    | learned => exact (free rfl).elim
    | failing => exact kept.allows
  have returned := coherent.backTo k
  refine ⟨kept.sound.returned returned, returned.varCount_eq.trans kept.varCount_eq, kept.mode_eq, ?_⟩
  have heights : height (work.trail.backTo k).stack = k := by
    rw [returned.stack_eq, coherent.stacked.height_cut (Nat.le_of_lt below)]
  rw [Standing.Allows, heights]
  exact returnable k below _ returned

omit [Tracer σ] in
/-- A learned clause that is asserting leaves propagation ready for the call that has to follow. -/
theorem Kept.learned (kept : Kept vars standing p work)
    (free : standing = .resting ∨ standing = .decided) {first : Lit} {rest : List Lit} {p' : Propagator}
    (asserts : work.trail.Asserts first rest)
    (attached : p.attach work.db.size (work.db.addLearned (first :: rest)) = .ok p') :
    Kept vars .learned p' { work with db := work.db.addLearned (first :: rest) } := by
  have coherent := kept.sound.coherent
  obtain ⟨same, asserting⟩ := asserts.asserting coherent
  have inRange : ∀ l ∈ first :: rest.eraseDups, l.var < work.trail.varCount := fun l member =>
    asserts.inRange l (List.mem_eraseDups.mp (same.symm ▸ member))
  have ready := kept.ready (by rcases free with rfl | rfl <;> simp)
  have pending : p.mode = .watchedLiterals → p.pending = [] := by
    intro mode
    rcases free with rfl | rfl
    · exact (Propagator.Quiet.idle kept.allows mode).pending_eq
    · exact kept.allows.2.1
  rw [← Database.addLearned_eraseDups, same] at attached ⊢
  obtain ⟨modeEq, ready', -⟩ := (ready.learn_yields pending asserting inRange).of_eq attached
  exact ⟨kept.sound.extended (work.db.extended_addLearned_of_nodup asserting.distinct) (by simp)
    asserting.distinct inRange, kept.varCount_eq, modeEq.trans kept.mode_eq, ready'⟩

omit [Tracer σ] in
/-- An empty trail and an empty database are ready for clauses. -/
theorem Kept.empty {stats : Statistics} {tracer : σ}
    (made : Propagator.empty .watchedLiterals vars = .ok p) :
    Kept vars .loading p (⟨{}, .empty vars, stats, tracer⟩ : Workspace σ) := by
  obtain ⟨modeEq, stocked⟩ := Propagator.stocked_of_empty made
  have varCount : (Trail.empty vars).varCount = vars := Trail.varCount_empty vars
  exact ⟨⟨Trail.coherent_empty vars, Database.wellFormed_empty _, trivial⟩, varCount, modeEq, rfl,
    stocked⟩

omit [Tracer σ] in
/-- A clause may be attached with repetitions, which go. -/
theorem Kept.given (kept : Kept vars .loading p work) {lits : List Lit} {p' : Propagator}
    (filled : lits ≠ []) (inRange : ∀ l ∈ lits, l.var < vars)
    (attached : p.attach work.db.size (work.db.addInput lits) = .ok p') :
    Kept vars .loading p' { work with db := work.db.addInput lits } := by
  obtain ⟨empty, stocked⟩ := kept.allows
  obtain ⟨modeEq, stocked'⟩ := (stocked.attach_yields inRange).of_eq attached
  have inRange' : ∀ l ∈ lits.eraseDups, l.var < work.trail.varCount := fun l member =>
    kept.varCount_eq.symm ▸ inRange l (List.mem_eraseDups.mp member)
  exact ⟨kept.sound.extended (work.db.extended_addInput lits)
    (fun none => filled (eraseDups_eq_nil_iff.mp none)) (nodup_eraseDups lits) inRange',
    kept.varCount_eq, modeEq.trans kept.mode_eq, empty, stocked'⟩

omit [Tracer σ] in
/-- A decision can be propagated or taken back. -/
theorem Kept.decided (kept : Kept vars .resting p work) {l : Lit} {t : Trail}
    (chosen : work.trail.choose l = .ok t) : Kept vars .decided p { work with trail := t } := by
  have made := kept.sound.coherent.made_of_choose chosen
  have quiet : p.Quiet work.db work.trail (height work.trail.stack + 1) := kept.allows
  exact ⟨kept.sound.made rfl made, made.varCount_eq.trans kept.varCount_eq, kept.mode_eq,
    quiet.choose kept.sound.coherent made, (quiet.idle kept.mode_eq).pending_eq,
    quiet.returnable_choose kept.mode_eq made⟩

/-- Every course of use keeps what the caller relies on. -/
theorem kept (course : Course vars standing p work) : Kept vars standing p work := by
  induction course with
  | empty made => exact .empty made
  | given _ filled inRange attached ih => exact ih.given filled inRange attached
  | propagated _ going called ih =>
    exact ih.propagated ((Propagator.propagate_yields ih.sound (ih.ready going)).of_eq called)
  | decided _ chosen ih => exact ih.decided chosen
  | returned _ free below ih => exact ih.returned free below
  | learned _ free asserts attached ih => exact ih.learned free asserts attached

end Course

/-- The trail makes the literal true at the level. -/
def Trail.Assigns (t : Trail) (l : Lit) (k : Nat) : Prop :=
  ∃ a ∈ t.entries.toList, a.lit = l ∧ a.level = k

section Agreement
variable {σ τ : Type} {work work' : Workspace σ} {other other' : Workspace τ}

/-- Of two advances from one trail, what both make true is made true at the same level. -/
theorem Workspace.Advanced.assigns (advanced : work.Advanced work') (advanced' : other.Advanced other')
    (sameTrail : other.trail = work.trail) (stacked : Stacked work'.trail.stack)
    (holds : ∀ l : Lit, l.HoldsOn work'.trail.stack → l.HoldsOn other'.trail.stack) {l : Lit} {k : Nat}
    (assigns : work'.trail.Assigns l k) : other'.trail.Assigns l k := by
  obtain ⟨a, listed, rfl, rfl⟩ := assigns
  have member : a ∈ work'.trail.stack := List.mem_reverse.mpr listed
  obtain ⟨added, grown, level⟩ := advanced.grown
  obtain ⟨added', grown', level'⟩ := advanced'.grown
  rw [sameTrail] at grown' level'
  rcases List.mem_append.mp (grown ▸ member) with late | early
  · obtain ⟨b, member', same⟩ := holds a.lit ⟨a, member, rfl⟩
    refine ⟨b, List.mem_reverse.mp member', same, ?_⟩
    rcases List.mem_append.mp (grown' ▸ member') with late' | early'
    · rw [(level a late).1, (level' b late').1]
    · rw [stacked.eq_of_var_eq (advanced.subset early') member (congrArg Lit.var same)]
  · have member' : a ∈ other'.trail.stack := advanced'.subset (sameTrail.symm ▸ early)
    exact ⟨a, List.mem_reverse.mp member', rfl, rfl⟩

variable [Tracer σ] [Tracer τ] {vars : Nat} {standing : Standing} {p : Propagator}

/-- Unless a conflict is waiting for a return, propagation along watch lists and rescanning the same
clauses on the same trail end alike. If unit propagation refutes the clauses, both name a clause all of
whose literals are false; otherwise neither does, and both make true, at the same levels, exactly what
unit propagation forces. -/
theorem Propagator.modes_agree (course : Course vars standing p work) (going : standing ≠ .failing)
    (sameClauses : work.db.Reordered other.db) (sameTrail : other.trail = work.trail)
    (watches : WatchTable) (pending : List Nat) :
    ∃ (watched : Propagated σ) (rescanned : Propagated τ), p.propagate work = .ok watched ∧
      propagate ⟨.rescan, watches, pending⟩ other = .ok rescanned ∧
      ((work.db.Refutes work.trail.stack ∧ ∃ id id', watched.conflict = some id ∧
          rescanned.conflict = some id' ∧ watched.work.Falsified id ∧ rescanned.work.Falsified id') ∨
        (¬ work.db.Refutes work.trail.stack ∧ watched.conflict = none ∧ rescanned.conflict = none ∧
          ∀ l, (l.HoldsOn watched.work.trail.stack ↔ work.db.Forces work.trail.stack l) ∧
            ∀ k, watched.work.trail.Assigns l k ↔ rescanned.work.trail.Assigns l k)) := by
  have kept := course.kept
  have otherSound : other.Sound := by
    refine ⟨?_, ?_, ?_⟩
    · rw [sameTrail]
      exact kept.sound.coherent
    · rw [sameTrail]
      exact sameClauses.wellFormed kept.sound.wellFormed
    · rw [sameTrail]
      exact kept.sound.grounded.reordered sameClauses
  obtain ⟨watched, called, outcome⟩ := propagate_yields kept.sound (kept.ready going)
  obtain ⟨⟨conflict, after⟩, scanned, saturated⟩ := rescan_yields otherSound
  have closes := outcome.saturated.closes
  have closes' := saturated.closes
  have refutes := closes'.refutes_iff
  rw [sameTrail, sameClauses.refutes_iff] at refutes
  refine ⟨watched, ⟨conflict, ⟨.rescan, watches, pending⟩, after⟩, called, ?_, ?_⟩
  · rw [propagate, scanned]
    rfl
  · by_cases refuted : work.db.Refutes work.trail.stack
    · obtain ⟨id, found⟩ := Option.ne_none_iff_exists'.mp (closes.refutes_iff.mp refuted)
      obtain ⟨id', found'⟩ := Option.ne_none_iff_exists'.mp (refutes.mp refuted)
      exact .inl ⟨refuted, id, id', found, found', closes.falsified id found,
        closes'.falsified id' found'⟩
    · have clear : watched.conflict = none := not_not.mp fun found =>
        refuted (closes.refutes_iff.mpr found)
      have clear' : conflict = none := not_not.mp fun found => refuted (refutes.mpr found)
      have holds : ∀ l : Lit, l.HoldsOn watched.work.trail.stack ↔ l.HoldsOn after.trail.stack := by
        intro l
        have forced := closes'.holdsOn_iff clear' l
        rw [sameTrail, sameClauses.forces_iff] at forced
        exact (closes.holdsOn_iff clear l).trans forced.symm
      refine .inr ⟨refuted, clear, clear', fun l => ⟨closes.holdsOn_iff clear l, fun k => ?_⟩⟩
      exact ⟨outcome.advanced.assigns saturated.advanced sameTrail outcome.sound.coherent.stacked
          fun l => (holds l).mp,
        saturated.advanced.assigns outcome.advanced sameTrail.symm saturated.sound.coherent.stacked
          fun l => (holds l).mpr⟩

/-- Two clauses rule out the first variable. Deciding it fails, and its negation is learned. -/
theorem exists_course_learned : ∃ (p : Propagator) (work : Workspace Unit),
    Course 2 .learned p work ∧ p.pending = [2] := by
  have run : (do
      let start ← Propagator.empty .watchedLiterals 2
      let one := ({} : Database).addInput [⟨0, true⟩, ⟨1, false⟩]
      let p₁ ← start.attach 0 one
      let two := one.addInput [⟨0, true⟩, ⟨1, true⟩]
      let p₂ ← p₁.attach 1 two
      let first ← p₂.propagate ⟨two, .empty 2, {}, ()⟩
      let t ← first.work.trail.choose ⟨0, false⟩
      let second ← first.propagator.propagate { first.work with trail := t }
      let value ← (second.work.trail.backTo 0).valueOf ⟨0, true⟩
      let p ← second.propagator.attach second.work.db.size (second.work.db.addLearned [⟨0, true⟩])
      let levels := [second.work.trail.level, (second.work.trail.backTo 0).level]
      return (first.conflict, second.conflict, value, levels, p.pending)) =
      .ok (none, some 1, .unknown, [1, 0], [2]) := by
    decide +kernel
  obtain ⟨start, made, run⟩ := Checked.bind_eq_ok_iff.mp run
  obtain ⟨p₁, attached₁, run⟩ := Checked.bind_eq_ok_iff.mp run
  obtain ⟨p₂, attached₂, run⟩ := Checked.bind_eq_ok_iff.mp run
  obtain ⟨first, called₁, run⟩ := Checked.bind_eq_ok_iff.mp run
  obtain ⟨t, chosen, run⟩ := Checked.bind_eq_ok_iff.mp run
  obtain ⟨second, called₂, run⟩ := Checked.bind_eq_ok_iff.mp run
  obtain ⟨value, valued, run⟩ := Checked.bind_eq_ok_iff.mp run
  obtain ⟨p, attached₃, seen⟩ := Checked.bind_eq_ok_iff.mp run
  simp only [pure, Except.pure, Except.ok.injEq, Prod.mk.injEq, List.cons.injEq] at seen
  obtain ⟨clear, failed, rfl, ⟨raised, bottom, -⟩, pending⟩ := seen
  have begun : Course 2 .loading start (⟨{}, .empty 2, {}, ()⟩ : Workspace Unit) := .empty made
  have loaded := (begun.given (by simp) (by decide) attached₁).given (by simp) (by decide) attached₂
  have resting := loaded.propagated (by simp) called₁
  rw [clear] at resting
  have failing := (resting.decided chosen).propagated (by simp) called₂
  rw [failed] at failing
  have returned := failing.returned (by simp [Standing.after]) (raised.symm ▸ Nat.one_pos)
  have asserts : (second.work.trail.backTo 0).Asserts ⟨0, true⟩ [] :=
    ⟨valued, by simp, by simp, fun _ => bottom⟩
  exact ⟨p, _, returned.learned (.inl rfl) asserts attached₃, by simpa using pending⟩

theorem Propagator.modes_agree_learned : ∃ (p : Propagator) (work : Workspace Unit),
    Course 2 .learned p work ∧ p.pending = [2] ∧ Standing.learned ≠ .failing ∧
      work.db.Reordered work.db ∧
      ∃ watched rescanned : Propagated Unit, p.propagate work = .ok watched ∧
        propagate ⟨.rescan, p.watches, []⟩ work = .ok rescanned ∧
        ((work.db.Refutes work.trail.stack ∧ ∃ id id', watched.conflict = some id ∧
            rescanned.conflict = some id' ∧ watched.work.Falsified id ∧ rescanned.work.Falsified id') ∨
          (¬ work.db.Refutes work.trail.stack ∧ watched.conflict = none ∧ rescanned.conflict = none ∧
            ∀ l, (l.HoldsOn watched.work.trail.stack ↔ work.db.Forces work.trail.stack l) ∧
              ∀ k, watched.work.trail.Assigns l k ↔ rescanned.work.trail.Assigns l k)) := by
  obtain ⟨p, work, course, pending⟩ := exists_course_learned
  exact ⟨p, work, course, pending, by simp, .refl work.db,
    modes_agree course (by simp) (.refl work.db) rfl p.watches []⟩

end Agreement

end ClauseLearning
