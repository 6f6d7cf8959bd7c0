import ClauseLearning.Proofs.Branching.Candidates
import ClauseLearning.Proofs.Branching.Rank

/-! # The next candidate is the best one

The queue is in order, and every candidate is in it with the rank of its present score: a score that is
raised takes its candidate along, and a decay makes the queue anew. `Ordered` says so, and that nothing is
in the queue that is not marked. It is kept by whatever is done to the scores and the queue, so that the
first candidate without a value comes before all other variables without one.
-/

namespace ClauseLearning

namespace Candidate
variable {c d e : Candidate}

theorem before_iff : c.before d = true ↔ d.rank < c.rank ∨ c.rank = d.rank ∧ c.var < d.var := by
  simp [before]

theorem before_trans (first : c.before d = true) (second : d.before e = true) : c.before e = true := by
  rw [before_iff] at first second ⊢
  omega

theorem ne_of_before (first : c.before d = true) : c ≠ d := by
  rintro rfl
  rw [before_iff] at first
  omega

/-- Of the candidates of two variables one comes before the other. -/
theorem before_of_not_before (differs : d.var ≠ c.var) (behind : ¬ c.before d = true) :
    d.before c = true := by
  rw [before_iff] at behind ⊢
  omega

end Candidate

namespace Queue
variable {c d : Candidate} {queue : Queue} {candidates : List Candidate} {var : Nat}

/-- Every candidate comes before all that are behind it. -/
def Sorted (queue : Queue) : Prop := queue.candidates.Pairwise fun c d => c.before d = true

/-- A candidate of another variable finds its place in the order. -/
private theorem pairwise_insertOrdered (sorted : candidates.Pairwise fun c d => c.before d = true)
    (differs : ∀ d ∈ candidates, d.var ≠ c.var) :
    (insertOrdered c candidates).Pairwise fun c d => c.before d = true := by
  induction candidates with
  | nil => exact List.pairwise_singleton _ _
  | cons d rest ih =>
    obtain ⟨first, later⟩ := List.pairwise_cons.mp sorted
    rw [insertOrdered]
    split
    · rename_i before
      refine List.pairwise_cons.mpr ⟨fun e member => ?_, sorted⟩
      rcases List.mem_cons.mp member with rfl | member
      · exact before
      · exact Candidate.before_trans before (first e member)
    · rename_i behind
      refine List.pairwise_cons.mpr ⟨fun e member => ?_, ih later fun e member => ?_⟩
      · rcases mem_insertOrdered_iff.mp member with rfl | member
        · exact Candidate.before_of_not_before (differs d (List.mem_cons_self ..)) behind
        · exact first e member
      · exact differs e (List.mem_cons_of_mem _ member)

theorem Sorted.insert (sorted : queue.Sorted) (differs : ∀ d ∈ queue.candidates, d.var ≠ c.var) :
    (queue.insert c).Sorted :=
  pairwise_insertOrdered sorted differs

theorem Sorted.update (sorted : queue.Sorted) : (queue.update c).Sorted := by
  have others : (queue.erase c.var).Sorted := sorted.filter _
  refine others.insert fun d member => ?_
  simpa using (List.mem_filter.mp member).2

theorem sorted_ofList (distinct : candidates.Pairwise fun c d => c.var ≠ d.var) :
    (ofList candidates).Sorted := by
  induction candidates with
  | nil => exact List.Pairwise.nil
  | cons c rest ih =>
    obtain ⟨differs, distinct⟩ := List.pairwise_cons.mp distinct
    exact (ih distinct).insert fun d member => (differs d (mem_ofList_iff.mp member)).symm

end Queue

namespace Branching
variable {b b' : Branching} {vars var : Nat}

/-- The queue is in order and up to date with the scores, and nothing is in it that is not marked. -/
structure Ordered (b : Branching) : Prop where
  sorted : b.queue.Sorted
  current : ∀ c ∈ b.queue.candidates, c = b.candidate c.var
  marked : ∀ c ∈ b.queue.candidates, b.Queued c.var

section Changes

/-- The queue made anew is in order. -/
theorem ordered_refill (b : Branching) (keep : Nat → Bool) : (b.refill keep).Ordered := by
  refine ⟨?_, ?_, ?_⟩
  · apply Queue.sorted_ofList
    refine List.pairwise_map.mpr ?_
    exact List.nodup_range.filter _
  · intro c member
    obtain ⟨var, -, rfl⟩ := mem_refill_iff.mp member
    rfl
  · intro c member
    obtain ⟨var, kept, rfl⟩ := mem_refill_iff.mp member
    exact queued_refill_iff.mpr kept

theorem ordered_decay (b : Branching) : b.decay.Ordered := ordered_refill _ _

/-- The scores at the start are in order. -/
theorem ordered_of_new {config : BranchingConfig} {db : Database} (made : new config vars db = .ok b) :
    b.Ordered := by
  obtain ⟨zero, -, onward⟩ := Checked.bind_eq_ok_iff.mp made
  obtain ⟨⟨positive, negative⟩, -, same⟩ := Checked.bind_eq_ok_iff.mp onward
  cases same
  exact ordered_refill _ _

/-- A variable whose score is raised is moved to its new place if it is in the queue. -/
theorem Ordered.of_bump (ordered : b.Ordered) (bumped : b.bump var = .ok b') : b'.Ordered := by
  obtain ⟨score, -, onward⟩ := Checked.bind_eq_ok_iff.mp bumped
  obtain ⟨scores, stored, onward⟩ := Checked.bind_eq_ok_iff.mp onward
  obtain ⟨inBounds, rfl⟩ := store_eq_ok_iff.mp stored
  obtain ⟨queued, fetched, onward⟩ := Checked.bind_eq_ok_iff.mp onward
  have mark : b.queued[var]? = some queued := fetch_eq_ok_iff.mp fetched
  have current : ∀ c ∈ b.queue.candidates, c.var ≠ var → c =
      candidate { b with scores := b.scores.set var (score + b.config.bump) inBounds } c.var := by
    intro c member differs
    rw [candidate, Array.getD_eq_getD_getElem?, Array.getElem?_set_ne _ differs.symm,
      ← Array.getD_eq_getD_getElem?]
    exact ordered.current c member
  split at onward
  · rename_i here
    rw [here] at mark
    cases onward
    refine ⟨ordered.sorted.update, fun c member => ?_, fun c member => ?_⟩
    · rcases Queue.mem_update_iff.mp member with rfl | ⟨member, differs⟩
      · rfl
      · exact current c member differs
    · rcases Queue.mem_update_iff.mp member with rfl | ⟨member, -⟩
      · exact mark
      · exact ordered.marked c member
  · rename_i elsewhere
    cases onward
    refine ⟨ordered.sorted, fun c member => current c member ?_, ordered.marked⟩
    rintro rfl
    exact elsewhere (Option.some.inj (mark.symm.trans (ordered.marked c member)))

theorem Ordered.of_bumpAll {lits : List Lit} (ordered : b.Ordered) (bumped : bumpAll lits b = .ok b') :
    b'.Ordered := by
  induction lits generalizing b with
  | nil =>
    cases bumped
    exact ordered
  | cons l rest ih =>
    obtain ⟨middle, bumped, onward⟩ := Checked.bind_eq_ok_iff.mp bumped
    exact ih (ordered.of_bump bumped) onward

/-- Taking note of a learned clause keeps the queue in order, whether or not the scores decay. -/
theorem Ordered.of_learn {lits : List Lit} {decayed : Bool} (ordered : b.Ordered)
    (learned : b.learn lits = .ok (decayed, b')) : b'.Ordered := by
  obtain ⟨middle, bumped, onward⟩ := Checked.bind_eq_ok_iff.mp learned
  have ordered' := ordered.of_bumpAll bumped
  simp only at onward
  split at onward
  · cases onward
    exact ⟨ordered'.sorted, ordered'.current, ordered'.marked⟩
  · cases onward
    exact ordered_decay middle

theorem Ordered.of_savePhase {a : Assignment} (ordered : b.Ordered) (saved : b.savePhase a = .ok b') :
    b'.Ordered := by
  rw [savePhase] at saved
  split at saved
  · obtain ⟨polarity, -, same⟩ := Checked.bind_eq_ok_iff.mp saved
    cases same
    exact ⟨ordered.sorted, ordered.current, ordered.marked⟩
  · cases saved
    exact ordered

/-- A variable that lost its value is entered with its present score unless it is still in the queue. -/
theorem Ordered.of_release {a : Assignment} (ordered : b.Ordered) (released : b.release a = .ok b') :
    b'.Ordered := by
  obtain ⟨middle, saved, onward⟩ := Checked.bind_eq_ok_iff.mp released
  have ordered' := ordered.of_savePhase saved
  obtain ⟨queued, fetched, onward⟩ := Checked.bind_eq_ok_iff.mp onward
  have mark : middle.queued[a.var]? = some queued := fetch_eq_ok_iff.mp fetched
  split at onward
  · cases onward
    exact ordered'
  · rename_i absent
    obtain ⟨table, stored, same⟩ := Checked.bind_eq_ok_iff.mp onward
    obtain ⟨inBounds, rfl⟩ := store_eq_ok_iff.mp stored
    cases same
    have differs : ∀ c ∈ middle.queue.candidates, c.var ≠ a.var := by
      intro c member same
      have marked : middle.queued[a.var]? = some true := same ▸ ordered'.marked c member
      exact absent (Option.some.inj (mark.symm.trans marked))
    refine ⟨ordered'.sorted.insert differs, fun c member => ?_, fun c member => ?_⟩
    · rcases Queue.mem_insert_iff.mp member with rfl | member
      · rfl
      · exact ordered'.current c member
    · rcases Queue.mem_insert_iff.mp member with rfl | member
      · exact Array.getElem?_set_self inBounds
      · exact (Array.getElem?_set_ne inBounds (differs c member).symm).trans (ordered'.marked c member)

theorem Ordered.of_releaseAll {removed : List Assignment} (ordered : b.Ordered)
    (released : releaseAll removed b = .ok b') : b'.Ordered := by
  induction removed generalizing b with
  | nil =>
    cases released
    exact ordered
  | cons a rest ih =>
    obtain ⟨middle, released, onward⟩ := Checked.bind_eq_ok_iff.mp released
    exact ih (ordered.of_release released) onward

end Changes

section Pick
variable {t : Trail} {choice : Option Lit}

/-- The candidates before the one taken are assigned and it is not, and only those left keep their
marks. -/
theorem exists_of_firstUnassigned {candidates left : List Candidate} {queued queued' : Array Bool}
    {choice : Option Nat} (searched : firstUnassigned t candidates queued = .ok (choice, left, queued')) :
    ∃ passed taken, candidates = passed ++ taken ++ left ∧ taken.map Candidate.var = choice.toList ∧
      (choice = none → left = []) ∧ (∀ c ∈ passed, t.isAssigned c.var = .ok true) ∧
      (∀ c ∈ taken, t.isAssigned c.var = .ok false) ∧ queued'.size = queued.size ∧
      ∀ var, queued'[var]? = some true ↔
        queued[var]? = some true ∧ ∀ c ∈ passed ++ taken, c.var ≠ var := by
  induction candidates generalizing queued with
  | nil =>
    cases searched
    exact ⟨[], [], rfl, rfl, fun _ => rfl, by simp, by simp, rfl, by simp⟩
  | cons c rest ih =>
    obtain ⟨table, stored, onward⟩ := Checked.bind_eq_ok_iff.mp searched
    obtain ⟨inBounds, rfl⟩ := store_eq_ok_iff.mp stored
    obtain ⟨assigned, found, onward⟩ := Checked.bind_eq_ok_iff.mp onward
    have marks : ∀ var, (queued.set c.var false inBounds)[var]? = some true ↔
        queued[var]? = some true ∧ c.var ≠ var := by
      intro var
      rw [queued_set_iff, ne_comm]
      split <;> simp [*]
    split at onward
    · rename_i here
      obtain ⟨passed, taken, rfl, same, exhausted, assigned', unassigned, size, marks'⟩ := ih onward
      refine ⟨c :: passed, taken, rfl, same, exhausted, ?_, unassigned, by simpa using size,
        fun var => ?_⟩
      · exact List.forall_mem_cons.mpr ⟨here ▸ found, assigned'⟩
      · rw [marks' var, marks var, List.cons_append, List.forall_mem_cons, and_assoc]
    · rename_i free
      cases onward
      refine ⟨[], [c], rfl, rfl, by simp, by simp, ?_, by simp, fun var => by simpa using marks var⟩
      intro d member
      rw [List.mem_singleton.mp member, found, Bool.eq_false_iff.mpr free]

/-- The candidates of one variable are one candidate. -/
theorem Ordered.eq_of_var_eq (ordered : b.Ordered) {c d : Candidate} (member : c ∈ b.queue.candidates)
    (member' : d ∈ b.queue.candidates) (same : c.var = d.var) : c = d := by
  rw [ordered.current c member, ordered.current d member', same]

/-- What is left of the queue by a search is in order. -/
theorem Ordered.of_firstUnassigned {chosen : Option Nat} {left : List Candidate} {queued : Array Bool}
    (ordered : b.Ordered)
    (searched : firstUnassigned t b.queue.candidates b.queued = .ok (chosen, left, queued)) :
    Ordered { b with queue := ⟨left⟩, queued } := by
  obtain ⟨passed, taken, split, -, -, -, -, -, marks⟩ := exists_of_firstUnassigned searched
  have listed : ∀ c ∈ left, c ∈ b.queue.candidates := fun c member =>
    split ▸ List.mem_append_right _ member
  have sorted := ordered.sorted
  rw [Queue.Sorted, split, List.pairwise_append] at sorted
  obtain ⟨-, sorted, across⟩ := sorted
  refine ⟨sorted, fun c member => ordered.current c (listed c member), fun c member => ?_⟩
  refine (marks c.var).mpr ⟨ordered.marked c (listed c member), fun d member' same => ?_⟩
  have listed' : d ∈ b.queue.candidates := split ▸ List.mem_append_left _ member'
  exact Candidate.ne_of_before (across d member' c member)
    (ordered.eq_of_var_eq listed' (listed c member) same)

theorem Ordered.of_pick (ordered : b.Ordered) (picked : b.pick t = .ok (choice, b')) : b'.Ordered := by
  obtain ⟨chosen, left, queued, searched, rfl, -⟩ := exists_of_pick picked
  exact ordered.of_firstUnassigned searched

/-- The variable that is picked comes before every other one without a value. -/
theorem Ordered.before_of_pick (ordered : b.Ordered) (coherent : t.Coherent) (fit : b.Fit t.varCount)
    (offers : b.Offers t.varCount t.stack) {l : Lit} (picked : b.pick t = .ok (some l, b'))
    (inRange : var < t.varCount) (unassigned : ∀ a ∈ t.stack, a.var ≠ var) (differs : var ≠ l.var) :
    (b.candidate l.var).before (b.candidate var) = true := by
  obtain ⟨_, left, queued, searched, -, rfl, -⟩ := exists_of_pick picked
  obtain ⟨passed, taken, split, same, -, assigned, -⟩ := exists_of_firstUnassigned searched
  obtain ⟨c, member, rfl⟩ := fit.listed var (offers var inRange unassigned)
  obtain ⟨d, rfl, sameVar⟩ := List.map_eq_singleton_iff.mp same
  have listed : d ∈ b.queue.candidates := by simp [split]
  have sorted := ordered.sorted
  rw [Queue.Sorted, split, List.pairwise_append] at sorted
  rw [← sameVar, ← ordered.current c member, ← ordered.current d listed]
  rw [split, List.mem_append, List.mem_append, List.mem_singleton] at member
  -- The candidate is still in the queue: had it been passed over, it would be assigned.
  rcases member with (before | rfl) | behind
  · have found := assigned c before
    rw [coherent.isAssigned_eq inRange] at found
    obtain ⟨a, member, same⟩ := List.any_eq_true.mp (Except.ok.inj found)
    exact (unassigned a member (eq_of_beq same)).elim
  · exact (differs sameVar).elim
  · exact sorted.2.2 d (by simp) c behind

end Pick

end Branching

end ClauseLearning
