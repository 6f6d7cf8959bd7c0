import ClauseLearning.Branching.Basic
import ClauseLearning.Proofs.Clauses.Database
import ClauseLearning.Proofs.Trail.Return
import Mathlib.Algebra.Group.Nat.Defs

/-! # No unassigned variable is ever lost as a candidate

The queue of candidates is lazy: a variable stays in it while it is assigned, and is dropped when it
comes up assigned. `Fit` says that the tables have the right sizes and that what is marked as queued
is in the queue, and `Offers` that every variable without an assignment is marked. Together they make
the search for a candidate end empty-handed only if every variable is assigned, whatever the scores
and preferred signs are.
-/

namespace ClauseLearning

/-- The number of variables for which every variable has literals. -/
def variableLimit : Nat := 2 ^ 31

/-- Exactly the variables below the limit have literals. -/
theorem Lit.ofVar_eq_ok_iff {var : Nat} {negative : Bool} {l : Lit} :
    Lit.ofVar var negative = .ok l ↔ var < variableLimit ∧ l = ⟨var, negative⟩ := by
  have bit := negative.toNat_le
  have codes : codeLimit = 2 * variableLimit := rfl
  rw [ofVar]
  split
  · rename_i coded
    have inRange : var < variableLimit := by omega
    rw [Except.ok.injEq, and_iff_right inRange, eq_comm]
  · rename_i codeless
    have outOfRange : ¬ var < variableLimit := by omega
    simp [outOfRange]

/-- A variable below the limit has literals of both signs. -/
theorem Lit.ofVar_of_lt {vars var : Nat} (inRange : var < vars) (small : vars ≤ variableLimit)
    (negative : Bool) : Lit.ofVar var negative = .ok ⟨var, negative⟩ :=
  ofVar_eq_ok_iff.mpr ⟨Nat.lt_of_lt_of_le inRange small, rfl⟩

namespace Queue
variable {c d : Candidate} {queue : Queue} {candidates : List Candidate} {var : Nat}

theorem mem_insertOrdered_iff : d ∈ insertOrdered c candidates ↔ d = c ∨ d ∈ candidates := by
  induction candidates with
  | nil => simp [insertOrdered]
  | cons e rest ih =>
    rw [insertOrdered]
    split
    · exact List.mem_cons
    · rw [List.mem_cons, ih, List.mem_cons]
      exact or_left_comm

@[simp] theorem mem_insert_iff : d ∈ (queue.insert c).candidates ↔ d = c ∨ d ∈ queue.candidates :=
  mem_insertOrdered_iff

@[simp] theorem mem_update_iff :
    d ∈ (queue.update c).candidates ↔ d = c ∨ d ∈ queue.candidates ∧ d.var ≠ c.var := by
  simp [update, erase]

@[simp] theorem mem_ofList_iff : d ∈ (ofList candidates).candidates ↔ d ∈ candidates := by
  induction candidates with
  | nil => simp [ofList]
  | cons c rest ih =>
    rw [ofList] at ih ⊢
    rw [List.foldr_cons, mem_insert_iff, ih, List.mem_cons]

end Queue

namespace Branching

def Queued (b : Branching) (var : Nat) : Prop := b.queued[var]? = some true

/-- The tables are over the variables, and what is marked as a candidate is in the queue. -/
structure Fit (b : Branching) (vars : Nat) : Prop where
  scores_size : b.scores.size = vars
  polarity_size : b.polarity.size = vars
  queued_size : b.queued.size = vars
  inRange : ∀ c ∈ b.queue.candidates, c.var < vars
  listed : ∀ var, b.Queued var → ∃ c ∈ b.queue.candidates, c.var = var

/-- Every variable without an assignment on the stack is a candidate. -/
def Offers (b : Branching) (vars : Nat) (stack : List Assignment) : Prop :=
  ∀ var < vars, (∀ a ∈ stack, a.var ≠ var) → b.Queued var

section Changes
variable {b b' : Branching} {vars var : Nat}

/-- The table of candidates with one more of them, or one less. -/
theorem queued_set_iff {table : Array Bool} {other : Nat} {mark : Bool}
    (inBounds : var < table.size) :
    (table.set var mark inBounds)[other]? = some true ↔
      if other = var then mark = true else table[other]? = some true := by
  split
  · rename_i same
    simp [same]
  · rename_i differs
    rw [Array.getElem?_set_ne _ (Ne.symm differs)]

structure Raised (b : Branching) (vars : Nat) (b' : Branching) : Prop where
  fit : b'.Fit vars
  queued_eq : b'.queued = b.queued
  config_eq : b'.config = b.config

theorem Fit.bump_yields (fit : b.Fit vars) (inRange : var < vars) :
    Yields (b.bump var) (Raised b vars) := by
  have scoreBound : var < b.scores.size := fit.scores_size ▸ inRange
  have queuedBound : var < b.queued.size := fit.queued_size ▸ inRange
  simp only [bump, fetch_of_lt scoreBound, store_of_lt _ scoreBound, fetch_of_lt queuedBound, ok_bind]
  split
  · refine yields_pure_iff.mpr ⟨⟨?_, fit.polarity_size, fit.queued_size, ?_, ?_⟩, rfl, rfl⟩
    · simpa using fit.scores_size
    · intro c member
      rcases Queue.mem_update_iff.mp member with rfl | ⟨member, -⟩
      · exact inRange
      · exact fit.inRange c member
    · intro other queued
      obtain ⟨c, member, rfl⟩ := fit.listed other queued
      by_cases same : c.var = var
      · exact ⟨_, Queue.mem_update_iff.mpr (.inl rfl), same.symm⟩
      · exact ⟨c, Queue.mem_update_iff.mpr (.inr ⟨member, same⟩), rfl⟩
  · refine yields_pure_iff.mpr ⟨⟨?_, fit.polarity_size, fit.queued_size, fit.inRange, fit.listed⟩,
      rfl, rfl⟩
    simpa using fit.scores_size

theorem Fit.bumpAll_yields (fit : b.Fit vars) (lits : List Lit) (inRange : ∀ l ∈ lits, l.var < vars) :
    Yields (bumpAll lits b) (Raised b vars) := by
  induction lits generalizing b with
  | nil => exact yields_pure_iff.mpr ⟨fit, rfl, rfl⟩
  | cons l rest ih =>
    apply (fit.bump_yields (inRange l (List.mem_cons_self ..))).bind
    intro middle raised
    apply (ih raised.fit fun other member => inRange other (List.mem_cons_of_mem _ member)).imp
    intro b' raised'
    exact ⟨raised'.fit, raised'.queued_eq.trans raised.queued_eq,
      raised'.config_eq.trans raised.config_eq⟩

/-- The queue has room for every variable that has literals. -/
theorem mod_varLimit_eq (small : vars ≤ variableLimit) : vars % varLimit = vars := by
  apply Nat.mod_eq_of_lt
  simp only [variableLimit] at small
  simp only [varLimit, UInt32.size]
  omega

/-- The variables that the queue has room for and that are selected. -/
private theorem mem_eligible_iff {size : Nat} {keep : Nat → Bool} :
    var ∈ (List.range (size % varLimit)).filter keep ↔ var < size % varLimit ∧ keep var = true := by
  simp

/-- The queue made anew has exactly the variables selected, of those that it has room for. -/
theorem queued_refill_iff {keep : Nat → Bool} :
    (b.refill keep).Queued var ↔ var < b.scores.size % varLimit ∧ keep var = true := by
  have room : b.scores.size % varLimit ≤ b.scores.size := Nat.mod_le ..
  rw [← mem_eligible_iff, Queued]
  change (fill id (fun _ => true) ((List.range (b.scores.size % varLimit)).filter keep)
    (Array.replicate b.scores.size false))[var]? = some true ↔ _
  constructor
  · intro marked
    by_contra absent
    have others : ∀ x ∈ (List.range (b.scores.size % varLimit)).filter keep, id x ≠ var := by
      rintro x member rfl
      exact absent member
    rw [getElem?_fill_of_absent others, Array.getElem?_replicate] at marked
    split at marked <;> simp at marked
  · intro member
    have inBounds : var < (Array.replicate b.scores.size false).size := by
      have inRange := (mem_eligible_iff.mp member).1
      rw [Array.size_replicate]
      omega
    exact getElem?_fill_of_present ⟨var, member, rfl⟩ (fun _ _ _ => rfl) inBounds

theorem mem_refill_iff {keep : Nat → Bool} {c : Candidate} :
    c ∈ (b.refill keep).queue.candidates ↔
      ∃ var, (var < b.scores.size % varLimit ∧ keep var = true) ∧ b.candidate var = c := by
  simp only [refill, Queue.mem_ofList_iff, List.mem_map, mem_eligible_iff]

/-- The queue made anew is in step with the tables. -/
theorem refill_fit (scores : b.scores.size = vars) (polarity : b.polarity.size = vars)
    (keep : Nat → Bool) : (b.refill keep).Fit vars := by
  have room : vars % varLimit ≤ vars := Nat.mod_le ..
  refine ⟨scores, polarity, ?_, ?_, ?_⟩
  · have size : (fill id (fun _ => true) ((List.range (b.scores.size % varLimit)).filter keep)
        (Array.replicate b.scores.size false)).size = vars := by simp [scores]
    exact size
  · intro c member
    obtain ⟨var, ⟨inRange, -⟩, rfl⟩ := mem_refill_iff.mp member
    exact Nat.lt_of_lt_of_le (scores ▸ inRange) room
  · intro var marked
    exact ⟨b.candidate var, mem_refill_iff.mpr ⟨var, queued_refill_iff.mp marked, rfl⟩, rfl⟩

/-- A decay keeps the queue in step with the tables. -/
theorem Fit.decay (fit : b.Fit vars) : b.decay.Fit vars := by
  have sized : (b.scores.map (· * b.config.decayFactor)).size = vars := by simpa using fit.scores_size
  have polarity : b.polarity.size = vars := fit.polarity_size
  exact refill_fit (b := { b with
    scores := b.scores.map (· * b.config.decayFactor), sinceDecay := 0 }) sized polarity _

/-- A decay keeps the candidates that there is room for. -/
theorem queued_decay_iff : b.decay.Queued var ↔ var < b.scores.size % varLimit ∧ b.Queued var := by
  rw [decay, queued_refill_iff, Array.size_map, Queued, Array.getD_eq_getD_getElem?]
  refine and_congr_right fun _ => ?_
  cases b.queued[var]? <;> simp

/-- Taking note of a learned clause loses no candidate that there is room for. -/
theorem Fit.learn_yields (fit : b.Fit vars) (lits : List Lit) (inRange : ∀ l ∈ lits, l.var < vars) :
    Yields (b.learn lits) fun (_, b') => b'.Fit vars ∧
      (vars ≤ variableLimit → ∀ var, b.Queued var → b'.Queued var) := by
  apply (fit.bumpAll_yields lits inRange).bind
  intro middle raised
  have fit' := raised.fit
  simp only
  split
  · refine yields_pure_iff.mpr ⟨⟨fit'.scores_size, fit'.polarity_size, fit'.queued_size, fit'.inRange,
      fit'.listed⟩, fun _ var queued => ?_⟩
    simpa only [Queued, raised.queued_eq] using queued
  · refine yields_pure_iff.mpr ⟨fit'.decay, fun small var queued => ?_⟩
    rw [queued_decay_iff, fit'.scores_size, mod_varLimit_eq small]
    rw [Queued, ← raised.queued_eq] at queued
    obtain ⟨inBounds, -⟩ := Array.getElem?_eq_some_iff.mp queued
    exact ⟨fit'.queued_size ▸ inBounds, queued⟩

structure Released (b : Branching) (vars : Nat) (b' : Branching) : Prop where
  fit : b'.Fit vars
  kept : ∀ var, b.Queued var → b'.Queued var

theorem Fit.savePhase_yields (fit : b.Fit vars) {a : Assignment} (inRange : a.var < vars) :
    Yields (b.savePhase a) fun b' => b'.Fit vars ∧ b'.queued = b.queued := by
  have polarityBound : a.var < b.polarity.size := fit.polarity_size ▸ inRange
  simp only [savePhase, store_of_lt _ polarityBound, ok_bind]
  split
  · refine yields_pure_iff.mpr ⟨⟨fit.scores_size, ?_, fit.queued_size, fit.inRange, fit.listed⟩, rfl⟩
    simpa using fit.polarity_size
  · exact yields_pure_iff.mpr ⟨fit, rfl⟩

/-- A variable that lost its value is a candidate again. -/
theorem Fit.release_yields (fit : b.Fit vars) {a : Assignment} (inRange : a.var < vars) :
    Yields (b.release a) fun b' => Released b vars b' ∧ b'.Queued a.var := by
  apply (fit.savePhase_yields inRange).bind
  rintro middle ⟨fit', same⟩
  have queuedBound : a.var < middle.queued.size := fit'.queued_size ▸ inRange
  simp only [fetch_of_lt queuedBound, ok_bind, store_of_lt _ queuedBound]
  split
  · rename_i marked
    refine yields_pure_iff.mpr ⟨⟨fit', fun var queued => by simpa only [Queued, same] using queued⟩, ?_⟩
    simp [Queued, queuedBound, marked]
  · have queued : ∀ var, (middle.queued.set a.var true queuedBound)[var]? = some true ↔
        var = a.var ∨ middle.Queued var := by
      intro var
      rw [queued_set_iff]
      split <;> simp [*, Queued]
    refine yields_pure_iff.mpr ⟨⟨⟨fit'.scores_size, fit'.polarity_size, ?_, ?_, ?_⟩, ?_⟩, ?_⟩
    · simpa using fit'.queued_size
    · intro c member
      rcases Queue.mem_insert_iff.mp member with rfl | member
      · exact inRange
      · exact fit'.inRange c member
    · intro var marked
      rcases (queued var).mp marked with rfl | marked
      · exact ⟨_, Queue.mem_insert_iff.mpr (.inl rfl), rfl⟩
      · obtain ⟨c, member, rfl⟩ := fit'.listed var marked
        exact ⟨c, Queue.mem_insert_iff.mpr (.inr member), rfl⟩
    · exact fun var marked => (queued var).mpr (.inr (by simpa only [Queued, same] using marked))
    · exact (queued a.var).mpr (.inl rfl)

/-- All variables that lost their values are candidates again. -/
theorem Fit.releaseAll_yields (fit : b.Fit vars) (removed : List Assignment)
    (inRange : ∀ a ∈ removed, a.var < vars) :
    Yields (releaseAll removed b) fun b' => Released b vars b' ∧ ∀ a ∈ removed, b'.Queued a.var := by
  induction removed generalizing b with
  | nil => exact yields_pure_iff.mpr ⟨⟨fit, fun _ => id⟩, by simp⟩
  | cons a rest ih =>
    apply (fit.release_yields (inRange a (List.mem_cons_self ..))).bind
    rintro middle ⟨released, queued⟩
    apply (ih released.fit fun other member => inRange other (List.mem_cons_of_mem _ member)).imp
    rintro b' ⟨released', queued'⟩
    refine ⟨⟨released'.fit, fun var marked => released'.kept var (released.kept var marked)⟩, ?_⟩
    intro other member
    rcases List.mem_cons.mp member with rfl | member
    · exact released'.kept _ queued
    · exact queued' other member

/-- Going back makes a candidate of every variable that is left without an assignment. -/
theorem Fit.releaseAbove_yields {t : Trail} (coherent : t.Coherent) (fit : b.Fit t.varCount)
    (level : Nat) :
    Yields (releaseAll (t.above level) b) fun b' => b'.Fit t.varCount ∧
      (b.Offers t.varCount t.stack → b'.Offers t.varCount (cut level t.stack)) := by
  have inRange : ∀ a ∈ t.above level, a.var < t.varCount :=
    fun a removed => coherent.var_lt (coherent.mem_above_iff.mp removed).1
  apply (fit.releaseAll_yields _ inRange).imp
  rintro b' ⟨released, queued⟩
  refine ⟨released.fit, fun offers var bound unassigned => ?_⟩
  by_cases assigned : ∃ a ∈ t.stack, a.var = var
  · obtain ⟨a, member, rfl⟩ := assigned
    refine queued a (coherent.mem_above_iff.mpr ⟨member, ?_⟩)
    by_contra within
    exact unassigned a (coherent.stacked.mem_cut_iff.mpr ⟨member, Nat.le_of_not_lt within⟩) rfl
  · exact released.kept var (offers var bound fun a member same => assigned ⟨a, member, same⟩)

end Changes

section Pick
variable {b : Branching} {t : Trail}

/-- What holds of the candidates left when they have been searched for an unassigned one. -/
structure Searched (t : Trail) (queued : Array Bool) (choice : Option Nat) (left : List Candidate)
    (queued' : Array Bool) : Prop where
  size_eq : queued'.size = queued.size
  inRange : ∀ c ∈ left, c.var < t.varCount
  listed : ∀ var, queued'[var]? = some true → ∃ c ∈ left, c.var = var
  chosen : ∀ var, choice = some var → var < t.varCount ∧ ∀ a ∈ t.stack, a.var ≠ var
  exhausted : choice = none → left = []
  kept : ∀ var, queued[var]? = some true → (∀ a ∈ t.stack, a.var ≠ var) → choice ≠ some var →
    queued'[var]? = some true

/-- Only assigned candidates are passed over on the way to the first unassigned one. -/
theorem firstUnassigned_yields (coherent : t.Coherent) (candidates : List Candidate)
    {queued : Array Bool} (size : queued.size = t.varCount)
    (inRange : ∀ c ∈ candidates, c.var < t.varCount)
    (listed : ∀ var, queued[var]? = some true → ∃ c ∈ candidates, c.var = var) :
    Yields (firstUnassigned t candidates queued) fun (choice, left, queued') =>
      Searched t queued choice left queued' := by
  induction candidates generalizing queued with
  | nil =>
    exact yields_pure_iff.mpr ⟨rfl, by simp, listed, by simp, fun _ => rfl, fun _ marked _ _ => marked⟩
  | cons c rest ih =>
    have here := inRange c (List.mem_cons_self ..)
    have later : ∀ d ∈ rest, d.var < t.varCount :=
      fun d member => inRange d (List.mem_cons_of_mem _ member)
    have inBounds : c.var < queued.size := size ▸ here
    have marks : ∀ var, (queued.set c.var false inBounds)[var]? = some true ↔
        var ≠ c.var ∧ queued[var]? = some true := by
      intro var
      rw [queued_set_iff]
      split <;> simp [*]
    have listed' : ∀ var, (queued.set c.var false inBounds)[var]? = some true →
        ∃ d ∈ rest, d.var = var := by
      intro var marked
      obtain ⟨differs, marked⟩ := (marks var).mp marked
      obtain ⟨d, member, rfl⟩ := listed var marked
      rcases List.mem_cons.mp member with rfl | member
      · exact (differs rfl).elim
      · exact ⟨d, member, rfl⟩
    simp only [firstUnassigned, store_of_lt _ inBounds, ok_bind, coherent.isAssigned_eq here]
    split
    · rename_i assigned
      apply (ih (by simpa using size) later listed').imp
      rintro ⟨choice, left, queued'⟩ searched
      refine ⟨by simpa using searched.size_eq, searched.inRange, searched.listed, searched.chosen,
        searched.exhausted, ?_⟩
      intro var marked unassigned differs
      refine searched.kept var ((marks var).mpr ⟨?_, marked⟩) unassigned differs
      rintro rfl
      obtain ⟨a, member, same⟩ := List.any_eq_true.mp assigned
      exact unassigned a member (eq_of_beq same)
    · rename_i unassigned
      refine yields_pure_iff.mpr ⟨by simp, later, listed', ?_, by simp, ?_⟩
      · rintro var chosen
        obtain rfl := Option.some.inj chosen
        refine ⟨here, fun a member same => unassigned ?_⟩
        exact List.any_eq_true.mpr ⟨a, member, beq_iff_eq.mpr same⟩
      · intro var marked _ differs
        exact (marks var).mpr ⟨fun same => differs (congrArg some same.symm), marked⟩

structure Picked (b : Branching) (t : Trail) (choice : Option Lit) (b' : Branching) : Prop where
  fit : b'.Fit t.varCount
  isOpen : ∀ l, choice = some l → l.var < t.varCount ∧ l.OpenOn t.stack
  complete : choice = none → ∀ var < t.varCount, ∃ a ∈ t.stack, a.var = var
  offers : ∀ l, choice = some l → ∀ var < t.varCount, (∀ a ∈ t.stack, a.var ≠ var) →
    var ≠ l.var → b'.Queued var

/-- The candidates that are left when some have been taken off the queue fit the tables. -/
theorem Searched.fit {choice : Option Nat} {left : List Candidate} {queued : Array Bool}
    (searched : Searched t b.queued choice left queued) (fit : b.Fit t.varCount) :
    Branching.Fit { b with queue := ⟨left⟩, queued } t.varCount :=
  ⟨fit.scores_size, fit.polarity_size, searched.size_eq.trans fit.queued_size, searched.inRange,
    searched.listed⟩

/-- Picking takes candidates off the queue, and decides on the unassigned one with its preferred sign. -/
theorem exists_of_pick {choice : Option Lit} {b' : Branching} (picked : b.pick t = .ok (choice, b')) :
    ∃ chosen left queued, firstUnassigned t b.queue.candidates b.queued = .ok (chosen, left, queued) ∧
      b' = { b with queue := ⟨left⟩, queued } ∧ choice.map Lit.var = chosen ∧
      ∀ l, choice = some l → b.polarity[l.var]? = some !l.negative := by
  obtain ⟨⟨chosen, left, queued⟩, searched, onward⟩ := Checked.bind_eq_ok_iff.mp picked
  cases chosen with
  | none =>
    cases onward
    exact ⟨none, left, queued, searched, rfl, rfl, by simp⟩
  | some var =>
    obtain ⟨sign, fetched, onward⟩ := Checked.bind_eq_ok_iff.mp onward
    obtain ⟨l, made, same⟩ := Checked.bind_eq_ok_iff.mp onward
    cases same
    obtain ⟨-, rfl⟩ := Lit.ofVar_eq_ok_iff.mp made
    refine ⟨some var, left, queued, searched, rfl, rfl, ?_⟩
    rintro l ⟨⟩
    rw [Bool.not_not]
    exact fetch_eq_ok_iff.mp fetched

/-- What is picked is a literal, so its variable is one of those that have literals. -/
theorem var_lt_of_pick {l : Lit} {b' : Branching} (picked : b.pick t = .ok (some l, b')) :
    l.var < variableLimit := by
  obtain ⟨⟨chosen, left, queued⟩, -, onward⟩ := Checked.bind_eq_ok_iff.mp picked
  cases chosen with
  | none => cases onward
  | some var =>
    obtain ⟨sign, -, onward⟩ := Checked.bind_eq_ok_iff.mp onward
    obtain ⟨l', made, same⟩ := Checked.bind_eq_ok_iff.mp onward
    cases same
    obtain ⟨inRange, rfl⟩ := Lit.ofVar_eq_ok_iff.mp made
    exact inRange

/-- Picking a decision keeps the tables and the queue in step. -/
theorem Fit.of_pick {choice : Option Lit} {b' : Branching} (coherent : t.Coherent)
    (fit : b.Fit t.varCount) (picked : b.pick t = .ok (choice, b')) : b'.Fit t.varCount := by
  obtain ⟨chosen, left, queued, searched, rfl, -⟩ := exists_of_pick picked
  exact ((firstUnassigned_yields coherent _ fit.queued_size fit.inRange fit.listed).of_eq
    searched).fit fit

/-- A literal of an unassigned variable is picked unless every variable is assigned. -/
theorem Fit.pick_yields (coherent : t.Coherent) (fit : b.Fit t.varCount)
    (offers : b.Offers t.varCount t.stack) (small : t.varCount ≤ variableLimit) :
    Yields (b.pick t) fun (choice, b') => Picked b t choice b' := by
  apply (firstUnassigned_yields coherent _ fit.queued_size fit.inRange fit.listed).bind
  rintro ⟨choice, left, queued'⟩ searched
  have fit' := searched.fit fit
  cases choice with
  | none =>
    refine yields_pure_iff.mpr ⟨fit', by simp, ?_, by simp⟩
    intro _ var bound
    by_contra unassigned
    have free : ∀ a ∈ t.stack, a.var ≠ var := fun a member same => unassigned ⟨a, member, same⟩
    obtain ⟨c, member, -⟩ :=
      searched.listed var (searched.kept var (offers var bound free) free (by simp))
    simp [searched.exhausted rfl] at member
  | some var =>
    obtain ⟨inRange, free⟩ := searched.chosen var rfl
    have polarityBound : var < b.polarity.size := fit.polarity_size ▸ inRange
    simp only [fetch_of_lt polarityBound, Lit.ofVar_of_lt inRange small, ok_bind]
    refine yields_pure_iff.mpr ⟨fit', ?_, by simp, ?_⟩
    · rintro l chosen
      obtain rfl := Option.some.inj chosen
      exact ⟨inRange, openOn_iff.mpr free⟩
    · rintro l chosen other bound free' differs
      obtain rfl := Option.some.inj chosen
      refine searched.kept other (offers other bound free') free' fun same => differs ?_
      exact (Option.some.inj same).symm

end Pick

section New
variable {vars : Nat}

/-- A count one higher makes up for the literal counted. -/
private theorem map_count_cons {table : Array Nat} {l : Lit} (rest : List Lit)
    (inBounds : l.var < table.size) (var : Nat) :
    (table.set l.var (table[l.var] + 1) inBounds)[var]?.map (· + rest.count ⟨var, l.negative⟩) =
      table[var]?.map (· + (l :: rest).count ⟨var, l.negative⟩) := by
  by_cases same : l.var = var
  · subst same
    rw [Array.getElem?_set_self, Array.getElem?_eq_getElem inBounds, List.count_cons_self]
    simp only [Option.map_some, Option.some.injEq]
    omega
  · have differs : l ≠ ⟨var, l.negative⟩ := fun equal => same (congrArg Lit.var equal)
    rw [Array.getElem?_set_ne _ same, List.count_cons_of_ne differs]

/-- Counting literals adds to each count the number of literals of the variable with the sign, and keeps
the tables over the variables. -/
theorem Occurrences.count_yields (lits : List Lit) (inRange : ∀ l ∈ lits, l.var < vars)
    {seen : Occurrences} (positive : seen.positive.size = vars) (negative : seen.negative.size = vars) :
    Yields (Occurrences.count lits seen) fun counted =>
      counted.positive.size = vars ∧ counted.negative.size = vars ∧ ∀ var,
        counted.positive[var]? = seen.positive[var]?.map (· + lits.count ⟨var, false⟩) ∧
        counted.negative[var]? = seen.negative[var]?.map (· + lits.count ⟨var, true⟩) := by
  induction lits generalizing seen with
  | nil => exact yields_pure_iff.mpr ⟨positive, negative, by simp⟩
  | cons l rest ih =>
    have here := inRange l (List.mem_cons_self ..)
    have later : ∀ other ∈ rest, other.var < vars :=
      fun other member => inRange other (List.mem_cons_of_mem _ member)
    have positiveBound : l.var < seen.positive.size := positive ▸ here
    have negativeBound : l.var < seen.negative.size := negative ▸ here
    obtain ⟨positives, negatives⟩ := seen
    simp only [Occurrences.count, fetch_of_lt positiveBound, fetch_of_lt negativeBound, ok_bind,
      store_of_lt _ positiveBound, store_of_lt _ negativeBound]
    obtain ⟨var, sign⟩ := l
    cases sign with
    | true =>
      rw [if_pos rfl]
      refine Yields.imp (ih later positive ?_) ?_
      · simpa using negative
      rintro counted ⟨positive', negative', counts⟩
      refine ⟨positive', negative', fun other => ⟨?_, ?_⟩⟩
      · rw [(counts other).1, List.count_cons_of_ne (by simp)]
      · rw [(counts other).2]
        exact map_count_cons rest negativeBound other
    | false =>
      rw [if_neg Bool.false_ne_true]
      refine Yields.imp (ih later ?_ negative) ?_
      · simpa using positive
      rintro counted ⟨positive', negative', counts⟩
      refine ⟨positive', negative', fun other => ⟨?_, ?_⟩⟩
      · rw [(counts other).1]
        exact map_count_cons rest positiveBound other
      · rw [(counts other).2, List.count_cons_of_ne (by simp)]

/-- The tables of counts at the start hold a zero for each variable. -/
theorem Occurrences.eq_of_zero {seen : Occurrences} (made : Occurrences.zero vars = .ok seen) :
    seen = ⟨Array.replicate vars 0, Array.replicate vars 0⟩ := by
  obtain ⟨positive, madePositive, onward⟩ := Checked.bind_eq_ok_iff.mp made
  obtain ⟨negative, madeNegative, same⟩ := Checked.bind_eq_ok_iff.mp onward
  cases same
  rw [eq_of_newTable madePositive, eq_of_newTable madeNegative]

/-- Counting begins if there is room for the counts. -/
theorem Occurrences.zero_of_lt (fits : vars * Occurrences.countBytes < byteLimit) :
    Occurrences.zero vars = .ok ⟨Array.replicate vars 0, Array.replicate vars 0⟩ := by
  simp only [Occurrences.zero, newTable_of_lt _ fits, ok_bind]
  rfl

/-- There is room for the counts of all variables that have literals. -/
theorem Occurrences.zero_of_le (small : vars ≤ variableLimit) :
    Occurrences.zero vars = .ok ⟨Array.replicate vars 0, Array.replicate vars 0⟩ := by
  refine Occurrences.zero_of_lt ?_
  simp only [variableLimit] at small
  simp only [Occurrences.countBytes, byteLimit, UInt64.size]
  omega

/-- What the start over the variables looks like if the input clauses have the given literals. -/
structure Started (b : Branching) (config : BranchingConfig) (vars : Nat) (lits : List Lit) : Prop where
  fit : b.Fit vars
  queued_iff : ∀ var, b.Queued var ↔ var < vars % varLimit
  config_eq : b.config = config
  sinceDecay_eq : b.sinceDecay = 0
  scores_eq : ∀ var < vars,
    b.scores[var]? = some (Float.ofNat (lits.count ⟨var, false⟩ + lits.count ⟨var, true⟩))
  polarity_eq : ∀ var < vars, b.polarity[var]? =
    some (config.initialPolarity.prefers (lits.count ⟨var, false⟩) (lits.count ⟨var, true⟩))

/-- If there is room for the counts, every variable is a candidate at the start, and its score is the
number of its occurrences. -/
theorem new_yields_of_zero (config : BranchingConfig) {db : Database}
    (inRange : ∀ l ∈ db.inputs.flatMap Clause.lits, l.var < vars) {seen : Occurrences}
    (made : Occurrences.zero vars = .ok seen) :
    Yields (new config vars db) fun b => b.Started config vars (db.inputs.flatMap Clause.lits) := by
  simp only [new, made, ok_bind]
  obtain rfl := Occurrences.eq_of_zero made
  apply (Occurrences.count_yields _ inRange (by simp) (by simp)).bind
  rintro ⟨positive, negative⟩ ⟨positives, negatives, counts⟩
  simp only at positives negatives counts
  have scores : (positive.zipWith (fun p n => Float.ofNat (p + n)) negative).size = vars := by
    simp [positives, negatives]
  have polarity : (positive.zipWith config.initialPolarity.prefers negative).size = vars := by
    simp [positives, negatives]
  refine yields_pure_iff.mpr ⟨refill_fit scores polarity _, fun var => ?_, rfl, rfl, ?_, ?_⟩
  · rw [queued_refill_iff, scores]
    exact and_iff_left rfl
  · intro var inRange
    simp [refill, Array.getElem?_zipWith, counts, inRange]
  · intro var inRange
    simp [refill, Array.getElem?_zipWith, counts, inRange]

/-- Without room for the counts there is no start. -/
theorem new_of_not_lt (config : BranchingConfig) (db : Database)
    (tooLarge : ¬ vars * Occurrences.countBytes < byteLimit) :
    new config vars db = .error .tableTooLarge := by
  simp only [new, Occurrences.zero, newTable_of_not_lt _ tooLarge]
  rfl

/-- The literals of the input clauses are literals of the variables. -/
theorem inRange_inputs {db : Database} (wellFormed : db.WellFormed vars) :
    ∀ l ∈ db.inputs.flatMap Clause.lits, l.var < vars := by
  intro l member
  obtain ⟨c, listed, member⟩ := List.mem_flatMap.mp member
  obtain ⟨id, inBounds, rfl⟩ := Database.mem_clauses_iff.mp (List.mem_filter.mp listed).1
  exact wellFormed.inRange id l (Database.litsOf_eq_of_lt inBounds ▸ member)

theorem started_of_new {config : BranchingConfig} {db : Database} {b : Branching}
    (wellFormed : db.WellFormed vars) (made : new config vars db = .ok b) :
    b.Started config vars (db.inputs.flatMap Clause.lits) := by
  obtain ⟨seen, zero, -⟩ := Checked.bind_eq_ok_iff.mp made
  exact (new_yields_of_zero config (inRange_inputs wellFormed) zero).of_eq made

/-- At the start the candidates are the variables that the queue is filled with. -/
theorem listed_iff_of_new {config : BranchingConfig} {db : Database} {b : Branching} {var : Nat}
    (wellFormed : db.WellFormed vars) (made : new config vars db = .ok b) :
    (∃ c ∈ b.queue.candidates, c.var = var) ↔ var < vars % varLimit := by
  have started := started_of_new wellFormed made
  constructor
  · rintro ⟨c, member, rfl⟩
    obtain ⟨seen, -, onward⟩ := Checked.bind_eq_ok_iff.mp made
    obtain ⟨counted, -, same⟩ := Checked.bind_eq_ok_iff.mp onward
    cases same
    obtain ⟨var, ⟨inRange, -⟩, rfl⟩ := mem_refill_iff.mp member
    exact started.fit.scores_size ▸ inRange
  · exact fun inRange => started.fit.listed var ((started.queued_iff var).mpr inRange)

/-- At the start the tables and the queue are in step. -/
theorem Fit.of_new {config : BranchingConfig} {db : Database} {b : Branching}
    (wellFormed : db.WellFormed vars) (made : new config vars db = .ok b) : b.Fit vars :=
  (started_of_new wellFormed made).fit

/-- At the start every variable is a candidate. -/
theorem new_yields (config : BranchingConfig) (small : vars ≤ variableLimit) {db : Database}
    (wellFormed : db.WellFormed vars) :
    Yields (new config vars db) fun b => b.Fit vars ∧ b.Offers vars [] := by
  apply (new_yields_of_zero config (inRange_inputs wellFormed) (Occurrences.zero_of_le small)).imp
  intro b started
  exact ⟨started.fit, fun var bound _ => (started.queued_iff var).mpr ((mod_varLimit_eq small).symm ▸ bound)⟩

end New

end Branching

end ClauseLearning
