import ClauseLearning.Proofs.Propagation.Underway

/-! # An implied literal leads the clause that forced it

Along watch lists the literal that a clause forces is its first one. It stays there for as long as it is
assigned: a visit turns the failed literal of a clause to the second place, and looks for another one to
watch only there and further on, so it moves the first literal of no clause unless that literal fails.
-/

namespace ClauseLearning

variable {σ : Type}

/-- The clause that forced a literal of the stack has that literal in the first place. -/
def Database.LeadsOn (db : Database) (stack : List Assignment) : Prop :=
  ∀ a ∈ stack, ∀ id, a.reason = .implied id → (db.litsOf id).head? = some a.lit

namespace Database.LeadsOn
variable {db db' : Database} {stack below : List Assignment} {a : Assignment} {id : Nat} {lits : List Lit}

theorem anti (leads : db.LeadsOn stack) (included : below ⊆ stack) : db.LeadsOn below :=
  fun a member => leads a (included member)

theorem cons (leads : db.LeadsOn below)
    (here : ∀ id, a.reason = .implied id → (db.litsOf id).head? = some a.lit) :
    db.LeadsOn (a :: below) := by
  intro b member
  rcases List.mem_cons.mp member with rfl | member
  · exact here
  · exact leads b member

theorem extended (leads : db.LeadsOn stack) (extended : db.Extended lits db') : db'.LeadsOn stack := by
  intro a member id reason
  have head := leads a member id reason
  rw [extended.litsOf_of_lt (Database.lt_size_of_mem (List.mem_of_head? head))]
  exact head

/-- A clause may be reordered if the literals that it forced still lead it. -/
theorem reorder (leads : db.LeadsOn stack) (inBounds : id < db.size)
    (here : ∀ a ∈ stack, a.reason = .implied id → lits.head? = some a.lit) :
    (db.reorder id lits).LeadsOn stack := by
  intro a member other reason
  by_cases same : other = id
  · rw [same, Database.litsOf_reorder_self inBounds]
    exact here a member (same ▸ reason)
  · rw [Database.litsOf_reorder_ne same]
    exact leads a member other reason

end Database.LeadsOn

/-- A literal that does not fail stays in front when the failed one is turned to the second place. -/
theorem eq_of_orient {failed l first : Lit} {lits rest : List Lit} (head : lits.head? = some l)
    (differs : l ≠ failed) (oriented : orient failed lits = .ok (first, rest)) : first = l := by
  match lits, head, oriented with
  | [l], rfl, oriented => cases oriented
  | l :: second :: others, rfl, oriented =>
    rw [orient, if_neg differs] at oriented
    split at oriented <;> cases oriented
    rfl

section Imply
variable [Tracer σ] {work work' : Workspace σ} {id : Nat} {l : Lit}

/-- Implying the first literal of a clause leaves every implied literal in the lead. -/
theorem Workspace.leadsOn_of_imply (coherent : work.trail.Coherent)
    (leads : work.db.LeadsOn work.trail.stack) (head : (work.db.litsOf id).head? = some l)
    (implied : work.imply l id = .ok work') : work'.db.LeadsOn work'.trail.stack := by
  obtain ⟨t', made, rfl⟩ := exists_of_imply implied
  simp only [(coherent.made_of_imply made).stack_eq]
  refine leads.cons fun other reason => ?_
  obtain rfl := Reason.implied.inj reason
  exact head

end Imply

namespace WatchedWorkspace
variable [Tracer σ] {state state' : WatchedWorkspace σ} {failed : Lit}

/-- A visit leaves every implied literal in the lead. -/
theorem leadsOn_of_visit {watcher : Watcher} {result : Visit σ} (sound : state.work.Sound)
    (fails : failed.FailsOn state.work.trail.stack)
    (leads : state.work.db.LeadsOn state.work.trail.stack)
    (visited : visit state failed watcher = .ok result) :
    result.state.work.db.LeadsOn result.state.work.trail.stack := by
  obtain ⟨watches, work⟩ := state
  obtain ⟨blocked, -, onward⟩ := Checked.bind_eq_ok_iff.mp visited
  split at onward
  · cases onward
    exact leads
  obtain ⟨clause, found, onward⟩ := Checked.bind_eq_ok_iff.mp onward
  obtain ⟨⟨first, rest⟩, oriented, onward⟩ := Checked.bind_eq_ok_iff.mp onward
  obtain ⟨value, -, onward⟩ := Checked.bind_eq_ok_iff.mp onward
  obtain ⟨replaced, -, onward⟩ := Checked.bind_eq_ok_iff.mp onward
  have inBounds := Database.lt_size_of_clause found
  have litsEq := (Database.clause_yields inBounds).of_eq found
  -- What the clause forced holds, so it is not the failed literal and stays in front.
  have reordered : ∀ tail, (work.reorder watcher.clause (first :: tail)).db.LeadsOn
      work.trail.stack := by
    intro tail
    refine leads.reorder inBounds fun a member reason => ?_
    have differs : a.lit ≠ failed := by
      rintro rfl
      exact sound.coherent.stacked.not_fails_of_holds ⟨a, member, rfl⟩ fails
    rw [List.head?_cons, eq_of_orient (litsEq ▸ leads a member _ reason) differs oriented]
  cases replaced with
  | some replacement =>
    obtain ⟨watches', -, same⟩ := Checked.bind_eq_ok_iff.mp onward
    cases same
    exact reordered _
  | none =>
    cases value with
    | holds | fails =>
      cases onward
      exact reordered _
    | unknown =>
      obtain ⟨work', implied, same⟩ := Checked.bind_eq_ok_iff.mp onward
      cases same
      have head : ((work.reorder watcher.clause (first :: failed :: rest)).db.litsOf
          watcher.clause).head? = some first :=
        congrArg List.head? (Database.litsOf_reorder_self inBounds)
      have coherent : (work.reorder watcher.clause (first :: failed :: rest)).trail.Coherent :=
        sound.coherent
      exact Workspace.leadsOn_of_imply coherent (reordered _) head implied

/-- So do all visits on account of a failed literal, in whatever order its watchers are visited and
whichever of them come last. -/
theorem leadsOn_of_visitAll (watchers : List Watcher) {done kept : List Watcher}
    {conflict : Option Nat} (sound : state.work.Sound)
    (covers : state.watches.Covers state.work.trail.varCount)
    (fails : failed.FailsOn state.work.trail.stack)
    (watching : Watching state.work.db
      (Function.update state.watches.listOf failed.negate (done ++ watchers)))
    (leads : state.work.db.LeadsOn state.work.trail.stack)
    (visited : visitAll failed watchers state = .ok (conflict, kept, state')) :
    state'.work.db.LeadsOn state'.work.trail.stack := by
  induction watchers generalizing state done kept with
  | nil =>
    cases visited
    exact leads
  | cons watcher rest ih =>
    obtain ⟨first, found, onward⟩ := Checked.bind_eq_ok_iff.mp visited
    have frame := (visit_yields sound covers fails watching).of_eq found
    have leads' := leadsOn_of_visit sound fails leads found
    have fails' := fails.mono frame.followed.advanced.subset
    cases first with
    | kept watcher' middle =>
      obtain ⟨⟨found, kept', last⟩, others, same⟩ := Checked.bind_eq_ok_iff.mp onward
      cases same
      exact ih frame.followed.sound frame.followed.covers fails' frame.watching leads' others
    | moved middle =>
      exact ih frame.followed.sound frame.followed.covers fails' frame.watching leads' onward
    | falsified watcher' middle =>
      cases onward
      exact leads'

/-- Drawing the consequences of a literal leaves every implied literal in the lead. -/
theorem leadsOn_of_propagateLit {l : Lit} {conflict : Option Nat} (sound : state.work.Sound)
    (covers : state.watches.Covers state.work.trail.varCount)
    (watching : Watching state.work.db state.watches.listOf)
    (holds : l.HoldsOn state.work.trail.stack) (leads : state.work.db.LeadsOn state.work.trail.stack)
    (drawn : propagateLit state l = .ok (conflict, state')) :
    state'.work.db.LeadsOn state'.work.trail.stack := by
  obtain ⟨watches, work⟩ := state
  obtain ⟨a, member, rfl⟩ := holds
  obtain ⟨watchers, listed, onward⟩ := Checked.bind_eq_ok_iff.mp drawn
  obtain ⟨taken, taking, onward⟩ := Checked.bind_eq_ok_iff.mp onward
  obtain ⟨⟨found, kept, ⟨swept, work'⟩⟩, visited, onward⟩ := Checked.bind_eq_ok_iff.mp onward
  obtain ⟨returned, -, same⟩ := Checked.bind_eq_ok_iff.mp onward
  cases same
  obtain ⟨takenCovers, takenWatching⟩ := watching_of_taken covers watching
    (sound.coherent.var_lt member) (by rw [listed, List.append_nil]) taking
  have takenSound : (WatchedWorkspace.mk taken work).work.Sound := sound
  have leads' := leadsOn_of_visitAll watchers takenSound takenCovers
    (failsOn_negate_iff.mpr ⟨a, member, rfl⟩) takenWatching leads visited
  exact leads'

end WatchedWorkspace

/-- The literal that a clause forces is its first one if the others fail. -/
theorem ClauseStatus.Describes.head?_eq {stack : List Assignment} {lits : List Lit} {l : Lit}
    (describes : ClauseStatus.Describes stack lits (.unit l))
    (fails : ∀ other ∈ lits.tail, other.FailsOn stack) : lits.head? = some l := by
  obtain ⟨member, isOpen, -⟩ := describes
  cases lits with
  | nil => cases member
  | cons first rest =>
    rcases List.mem_cons.mp member with rfl | listed
    · rfl
    · exact (isOpen.2 (fails l listed)).elim

namespace Propagator

/-- Along watch lists every implied literal leads its clause, and every pending clause may come to be led
by a literal that it forces. -/
structure Leading (p : Propagator) (db : Database) (t : Trail) : Prop where
  leads : p.mode = .watchedLiterals → db.LeadsOn t.stack
  trailing : p.mode = .watchedLiterals → ∀ id ∈ p.pending, ∀ l ∈ (db.litsOf id).tail, l.FailsOn t.stack

variable [Tracer σ] {p p' : Propagator} {work work' : Workspace σ} {conflict : Option Nat}

/-- A pending clause is led by the literal that it forces. -/
private theorem leadsOn_of_settle {id : Nat} {left : List Nat} (sound : work.Sound)
    (inBounds : id < work.db.size) (leads : work.db.LeadsOn work.trail.stack)
    (fails : ∀ l ∈ (work.db.litsOf id).tail, l.FailsOn work.trail.stack)
    (settled : settle [id] work = .ok (conflict, left, work')) :
    work'.db.LeadsOn work'.trail.stack := by
  obtain ⟨status, found, onward⟩ := Checked.bind_eq_ok_iff.mp settled
  have describes := (sound.status_yields inBounds).of_eq found
  cases status with
  | satisfied | conflicting | unresolved =>
    cases onward
    exact leads
  | unit l =>
    obtain ⟨middle, implied, same⟩ := Checked.bind_eq_ok_iff.mp onward
    cases same
    exact Workspace.leadsOn_of_imply sound.coherent leads (describes.head?_eq fails) implied

/-- Implied literals lead their clauses at every moment in the course of propagation. -/
theorem Underway.leading (underway : Underway p work conflict p' work') (safe : p.Safe work)
    (leading : p.Leading work.db work.trail) : p'.Leading work'.db work'.trail := by
  induction underway with
  | begun => exact leading
  | @looked watches id rest conflict before after moment looked ih =>
    obtain ⟨sound, -, forcing⟩ := (moment.midway safe).safe
    obtain ⟨inBounds, -⟩ := forcing rfl id (List.mem_cons_self ..)
    have result := (settle_yields [id] sound fun other member =>
      forcing rfl other (List.mem_singleton.mp member ▸ List.mem_cons_self ..)).of_eq looked
    refine ⟨fun _ => ?_, fun _ other member l listed => ?_⟩
    · exact leadsOn_of_settle sound inBounds (ih.leads rfl)
        (ih.trailing rfl id (List.mem_cons_self ..)) looked
    · rw [result.db_eq] at listed
      exact (ih.trailing rfl other (List.mem_cons_of_mem id member) l listed).mono
        result.advanced.subset
  | @drawn watches watches' l passed conflict before after moment next drawn ih =>
    obtain ⟨sound, watchful, -⟩ := (moment.midway safe).safe
    obtain ⟨coherent, stackEq, varsEq, -, a, rfl, processedEq⟩ :=
      sound.coherent.nextToPropagate_eq_some next
    obtain ⟨movedSound, -⟩ := sound.moveCursor coherent stackEq varsEq
    have holds : a.lit.HoldsOn passed.stack :=
      ⟨a, passed.processed_suffix.subset (processedEq ▸ List.mem_cons_self ..), rfl⟩
    have leads : before.db.LeadsOn passed.stack := stackEq ▸ ih.leads rfl
    refine ⟨fun _ => ?_, by simp⟩
    exact WatchedWorkspace.leadsOn_of_propagateLit movedSound (varsEq.symm ▸ watchful.covers rfl)
      (watchful.watching rfl) holds leads drawn
  | skipped _ ih => exact ⟨ih.leads, ih.trailing⟩
  | scanned _ _ _ _ => exact ⟨by simp, by simp⟩

end Propagator

end ClauseLearning
