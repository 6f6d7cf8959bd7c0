import ClauseLearning.Proofs.Branching.Order
import Mathlib.Data.Finset.Filter
import Mathlib.Data.Finset.Insert
import Mathlib.Data.Finset.Range

/-! # The heuristic without its queue

Decisions could be picked without a queue: keep the scores and the set of variables that may be decided,
and look at all of these whenever a decision is due. `NaiveBranching` does that. Over any sequence of calls
the two give the same answers. What makes them agree is that the queue always holds just the variables that
may be decided, each of them once and with the rank of its present score.
-/

namespace ClauseLearning

/-- Whether the table of values has a value for the variable. -/
def Trail.marked (t : Trail) (var : Nat) : Bool := t.values.getD var .unknown != .unknown

/-- Looking up whether a variable has a value succeeds in range. -/
theorem Trail.isAssigned_of_lt {t : Trail} {var : Nat} (inRange : var < t.varCount) :
    t.isAssigned var = .ok (t.marked var) := by
  have inBounds : var < t.values.size := inRange
  simp [isAssigned, marked, fetch_of_lt inBounds, inBounds]

/-- The heuristic with nothing but the scores, the preferred signs and the variables that may be decided. -/
structure NaiveBranching where
  config : BranchingConfig
  vars : Nat
  score : Nat → Float
  polarity : Nat → Bool
  eligible : Finset Nat
  learned : Nat

namespace NaiveBranching

/-- At the start each variable is eligible and has the number of its occurrences for a score. -/
def new (config : BranchingConfig) (vars : Nat) (db : Database) : NaiveBranching :=
  let lits := db.inputs.flatMap Clause.lits
  { config, vars
    score := fun var => Float.ofNat (lits.countP fun l => l.var == var)
    polarity := fun var =>
      config.initialPolarity.prefers (lits.count ⟨var, false⟩) (lits.count ⟨var, true⟩)
    eligible := Finset.range vars
    learned := 0 }

/-- Whether a variable is to be decided before another: it has the higher score, where what is not a number
counts as zero, or the same score and is the lower variable. -/
def outranks (n : NaiveBranching) (var other : Nat) : Bool :=
  decide (countedScore (n.score other) < countedScore (n.score var)) ||
    (countedScore (n.score var) == countedScore (n.score other) && decide (var < other))

/-- The eligible unassigned variable that outranks all others, if there is one. -/
def best (n : NaiveBranching) (assigned : Nat → Bool) : Option Nat :=
  (List.range n.vars).find? fun var => decide (var ∈ n.eligible ∧ assigned var = false ∧
    ∀ other ∈ n.eligible, assigned other = false → other ≠ var → n.outranks var other = true)

/-- Decides the best variable with its preferred sign. It is not eligible any more, and neither are the
assigned ones that outrank it. If there is none, no variable is. -/
def pick (n : NaiveBranching) (assigned : Nat → Bool) : Option Lit × NaiveBranching :=
  match n.best assigned with
  | none => (none, { n with eligible := ∅ })
  | some var =>
    (some ⟨var, !n.polarity var⟩, { n with eligible := n.eligible.filter fun other =>
      other ≠ var ∧ ¬ (assigned other = true ∧ n.outranks other var = true) })

/-- Makes the variable of an assignment that was taken back eligible, and saves its phase if phases are
saved. -/
def release (n : NaiveBranching) (a : Assignment) : NaiveBranching :=
  { n with
    polarity := if n.config.savePhases then Function.update n.polarity a.var a.value else n.polarity
    eligible := insert a.var n.eligible }

def bump (n : NaiveBranching) (var : Nat) : NaiveBranching :=
  { n with score := Function.update n.score var (n.score var + n.config.bump) }

/-- Raises a score for each literal. When the number of clauses learned is a multiple of the interval, all
scores are multiplied with the factor; an interval of zero counts as one. Yields whether they were. -/
def learn (n : NaiveBranching) (lits : List Lit) : Bool × NaiveBranching :=
  let n := lits.foldl (fun n l => n.bump l.var) n
  let learned := n.learned + 1
  if max n.config.decayInterval 1 ∣ learned then
    (true, { n with score := fun var => n.score var * n.config.decayFactor, learned })
  else (false, { n with learned })

end NaiveBranching

namespace Branching

/-- What may be asked of the heuristic after its start. -/
inductive Call where
  | pick (t : Trail)
  /-- An assignment was taken back. -/
  | release (a : Assignment)
  /-- A clause was learned. -/
  | learn (lits : List Lit)

inductive Answer where
  | picked (choice : Option Lit)
  | released
  /-- Whether the scores decayed. -/
  | learned (decayed : Bool)
deriving DecidableEq

/-- The call stays within the variables: the trail is over them, or more, and the assignment or the literals
are of them. -/
def Call.Within (vars : Nat) : Call → Prop
  | pick t => vars ≤ t.varCount
  | release a => a.var < vars
  | learn lits => ∀ l ∈ lits, l.var < vars

def call (b : Branching) : Call → Checked (Answer × Branching)
  | .pick t => do
    let (choice, b) ← b.pick t
    return (.picked choice, b)
  | .release a => return (.released, ← b.release a)
  | .learn lits => do
    let (decayed, b) ← b.learn lits
    return (.learned decayed, b)

def serve : List Call → Branching → Checked (List Answer × Branching)
  | [], b => return ([], b)
  | c :: rest, b => do
    let (answer, b) ← b.call c
    let (answers, b) ← serve rest b
    return (answer :: answers, b)

end Branching

namespace NaiveBranching
open Branching (Call Answer)

def call (n : NaiveBranching) : Call → Answer × NaiveBranching
  | .pick t => ((.picked (n.pick t.marked).1), (n.pick t.marked).2)
  | .release a => (.released, n.release a)
  | .learn lits => (.learned (n.learn lits).1, (n.learn lits).2)

def serve : List Call → NaiveBranching → List Answer × NaiveBranching
  | [], n => ([], n)
  | c :: rest, n =>
    let (answers, n') := serve rest (n.call c).2
    ((n.call c).1 :: answers, n')

/-- The scores are those of the naive heuristic, and the queue holds the eligible variables, each once and
with the rank of its present score. The marks say which variables these are. -/
structure Mirrors (n : NaiveBranching) (vars : Nat) (b : Branching) : Prop where
  scores_eq : ∀ var < vars, b.scores[var]? = some (n.score var)
  once : (b.queue.candidates.map Candidate.var).Nodup
  current : ∀ c ∈ b.queue.candidates, c.var < vars ∧ c.rank = scoreRank (n.score c.var)
  marked_iff : ∀ var < vars, ∃ mark, b.queued[var]? = some mark ∧
    (mark = true ↔ var ∈ b.queue.candidates.map Candidate.var)
  eligible_iff : ∀ var, var ∈ n.eligible ↔ var ∈ b.queue.candidates.map Candidate.var

/-- What holds of the two throughout. -/
structure Tracks (n : NaiveBranching) (b : Branching) : Prop where
  fit : b.Fit n.vars
  ordered : b.Ordered
  config_eq : b.config = n.config
  scores_eq : ∀ var < n.vars, b.scores[var]? = some (n.score var)
  polarity_eq : ∀ var < n.vars, b.polarity[var]? = some (n.polarity var)
  eligible_iff : ∀ var, var ∈ n.eligible ↔ b.Queued var
  sinceDecay_eq : b.sinceDecay = n.learned % max n.config.decayInterval 1

section Order
variable {n : NaiveBranching} {assigned : Nat → Bool} {var other : Nat}

def candidate (n : NaiveBranching) (var : Nat) : Candidate := ⟨scoreRank (n.score var), var⟩

/-- A variable outranks another if its candidate comes before. -/
theorem outranks_iff :
    n.outranks var other = true ↔ (n.candidate var).before (n.candidate other) = true := by
  rw [Candidate.before_iff, candidate, candidate, scoreRank_lt_iff, scoreRank_eq_iff]
  simp [outranks]

/-- Of two variables only one outranks the other. -/
theorem not_outranks_of_outranks (first : n.outranks var other = true) :
    ¬ n.outranks other var = true := by
  rw [outranks_iff, Candidate.before_iff] at first ⊢
  omega

theorem best_eq_none (all : ∀ var ∈ n.eligible, assigned var = true) : n.best assigned = none := by
  rw [best, List.find?_eq_none]
  intro var _ found
  obtain ⟨eligible, free, -⟩ := of_decide_eq_true found
  rw [all var eligible] at free
  cases free

/-- No other variable is the best. -/
theorem best_eq_some (inRange : var < n.vars) (eligible : var ∈ n.eligible) (free : assigned var = false)
    (first : ∀ other ∈ n.eligible, assigned other = false → other ≠ var →
      n.outranks var other = true) : n.best assigned = some var := by
  cases found : n.best assigned with
  | none =>
    have none := List.find?_eq_none.mp found var (List.mem_range.mpr inRange)
    exact (none (decide_eq_true ⟨eligible, free, first⟩)).elim
  | some other =>
    rw [best] at found
    have holds := List.find?_some found
    obtain ⟨eligible', free', first'⟩ := of_decide_eq_true holds
    by_contra differs
    have apart : other ≠ var := fun same => differs (congrArg some same)
    exact not_outranks_of_outranks (first other eligible' free' apart)
      (first' var eligible free apart.symm)

end Order

section Steps
variable {n : NaiveBranching} {b b' : Branching} {t : Trail} {var : Nat}

/-- A table with one entry replaced holds what the function does with one value replaced. -/
private theorem getElem?_set_eq_update {α : Type} {table : Array α} {value : Nat → α} {vars : Nat}
    (same : ∀ var < vars, table[var]? = some (value var)) {entry : α} (inBounds : var < table.size) :
    ∀ other < vars, (table.set var entry inBounds)[other]? =
      some (Function.update value var entry other) := by
  intro other inRange
  by_cases here : other = var
  · subst here
    rw [Array.getElem?_set_self, Function.update_self]
  · rw [Array.getElem?_set_ne _ (Ne.symm here), Function.update_of_ne here]
    exact same other inRange

/-- The literals of a variable are its positive and its negative ones. -/
private theorem countP_var (lits : List Lit) (var : Nat) :
    (lits.countP fun l => l.var == var) = lits.count ⟨var, false⟩ + lits.count ⟨var, true⟩ := by
  induction lits with
  | nil => rfl
  | cons l rest ih =>
    obtain ⟨other, sign⟩ := l
    rw [List.countP_cons, List.count_cons, List.count_cons, ih]
    by_cases same : other = var
    · subst same
      cases sign <;> simp <;> omega
    · simp [same]

theorem Tracks.candidate_eq (tracks : n.Tracks b) (inRange : var < n.vars) :
    b.candidate var = n.candidate var := by
  rw [Branching.candidate, candidate, Array.getD_eq_getD_getElem?, tracks.scores_eq var inRange]
  rfl

/-- What is queued is in the queue, and the other way round. -/
theorem Tracks.eligible_iff_mem (tracks : n.Tracks b) :
    var ∈ n.eligible ↔ ∃ c ∈ b.queue.candidates, c.var = var := by
  rw [tracks.eligible_iff]
  constructor
  · exact tracks.fit.listed var
  · rintro ⟨c, member, rfl⟩
    exact tracks.ordered.marked c member

theorem Tracks.mirrors (tracks : n.Tracks b) : n.Mirrors n.vars b := by
  refine ⟨tracks.scores_eq, ?_, fun c member => ?_, fun var inRange => ?_, fun var => ?_⟩
  · refine List.pairwise_map.mpr (tracks.ordered.sorted.imp_of_mem ?_)
    intro c d member member' before same
    exact Candidate.ne_of_before before (tracks.ordered.eq_of_var_eq member member' same)
  · have inRange := tracks.fit.inRange c member
    refine ⟨inRange, ?_⟩
    exact congrArg Candidate.rank ((tracks.ordered.current c member).trans (tracks.candidate_eq inRange))
  · have inBounds : var < b.queued.size := tracks.fit.queued_size ▸ inRange
    refine ⟨b.queued[var], Array.getElem?_eq_getElem inBounds, ?_⟩
    rw [List.mem_map, ← tracks.eligible_iff_mem, tracks.eligible_iff, Branching.Queued,
      Array.getElem?_eq_getElem inBounds, Option.some.injEq]
  · rw [tracks.eligible_iff_mem, List.mem_map]

/-- The two start alike. -/
theorem tracks_new (config : BranchingConfig) {vars : Nat} (small : vars ≤ variableLimit) {db : Database}
    (inRange : ∀ l ∈ db.inputs.flatMap Clause.lits, l.var < vars) :
    Yields (Branching.new config vars db) (new config vars db).Tracks := by
  have zero := Branching.Occurrences.zero_of_le small
  obtain ⟨b, made, started⟩ := Branching.new_yields_of_zero config inRange zero
  refine ⟨b, made, started.fit, Branching.ordered_of_new made, started.config_eq, ?_,
    started.polarity_eq, fun var => ?_, ?_⟩
  · intro var inRange
    rw [started.scores_eq var inRange, ← countP_var]
    rfl
  · rw [started.queued_iff, Branching.mod_varLimit_eq small]
    exact Finset.mem_range
  · rw [started.sinceDecay_eq]
    exact (Nat.zero_mod _).symm

private theorem Tracks.savePhase (tracks : n.Tracks b) {a : Assignment} (inRange : a.var < n.vars) :
    Yields (b.savePhase a) (Tracks { n with
      polarity := if n.config.savePhases then Function.update n.polarity a.var a.value
        else n.polarity }) := by
  obtain ⟨middle, saved, fit, -⟩ := tracks.fit.savePhase_yields inRange
  have ordered := tracks.ordered.of_savePhase saved
  refine ⟨middle, saved, ?_⟩
  rw [Branching.savePhase] at saved
  split at saved
  · rename_i saves
    obtain ⟨table, stored, same⟩ := Checked.bind_eq_ok_iff.mp saved
    obtain ⟨inBounds, rfl⟩ := store_eq_ok_iff.mp stored
    cases same
    rw [if_pos (tracks.config_eq ▸ saves)]
    exact ⟨fit, ordered, tracks.config_eq, tracks.scores_eq,
      getElem?_set_eq_update tracks.polarity_eq inBounds, tracks.eligible_iff, tracks.sinceDecay_eq⟩
  · rename_i forgets
    cases saved
    rw [if_neg (tracks.config_eq ▸ forgets)]
    exact tracks

theorem Tracks.release (tracks : n.Tracks b) {a : Assignment} (inRange : a.var < n.vars) :
    Yields (b.release a) (n.release a).Tracks := by
  obtain ⟨b', released, ⟨fit, -⟩, -⟩ := tracks.fit.release_yields inRange
  have ordered := tracks.ordered.of_release released
  refine ⟨b', released, ?_⟩
  obtain ⟨middle, saved, onward⟩ := Checked.bind_eq_ok_iff.mp released
  have saved' := (tracks.savePhase inRange).of_eq saved
  obtain ⟨queued, fetched, onward⟩ := Checked.bind_eq_ok_iff.mp onward
  have mark := fetch_eq_ok_iff.mp fetched
  split at onward
  · rename_i here
    cases onward
    rw [here] at mark
    refine ⟨fit, ordered, saved'.config_eq, saved'.scores_eq, saved'.polarity_eq, fun var => ?_,
      saved'.sinceDecay_eq⟩
    have present : a.var ∈ n.eligible := (saved'.eligible_iff a.var).mpr mark
    rw [NaiveBranching.release, Finset.insert_eq_of_mem present]
    exact saved'.eligible_iff var
  · obtain ⟨table, stored, same⟩ := Checked.bind_eq_ok_iff.mp onward
    obtain ⟨inBounds, rfl⟩ := store_eq_ok_iff.mp stored
    cases same
    refine ⟨fit, ordered, saved'.config_eq, saved'.scores_eq, saved'.polarity_eq, fun var => ?_,
      saved'.sinceDecay_eq⟩
    rw [NaiveBranching.release, Finset.mem_insert, saved'.eligible_iff var, Branching.Queued,
      Branching.Queued, Branching.queued_set_iff]
    split <;> simp [*]

theorem Tracks.bump (tracks : n.Tracks b) (inRange : var < n.vars) :
    Yields (b.bump var) (n.bump var).Tracks := by
  obtain ⟨b', bumped, raised⟩ := tracks.fit.bump_yields inRange
  have ordered := tracks.ordered.of_bump bumped
  refine ⟨b', bumped, ?_⟩
  obtain ⟨score, fetched, onward⟩ := Checked.bind_eq_ok_iff.mp bumped
  obtain ⟨scores, stored, onward⟩ := Checked.bind_eq_ok_iff.mp onward
  obtain ⟨inBounds, rfl⟩ := store_eq_ok_iff.mp stored
  obtain ⟨queued, -, onward⟩ := Checked.bind_eq_ok_iff.mp onward
  have scoreEq := (fetch_eq_ok_iff.mp fetched).symm.trans (tracks.scores_eq var inRange)
  obtain rfl := Option.some.inj scoreEq
  have scores : ∀ other < n.vars, (b.scores.set var (n.score var + b.config.bump) inBounds)[other]? =
      some (Function.update n.score var (n.score var + n.config.bump) other) := by
    rw [← tracks.config_eq]
    exact getElem?_set_eq_update tracks.scores_eq inBounds
  split at onward <;> cases onward <;>
    exact ⟨raised.fit, ordered, tracks.config_eq, scores, tracks.polarity_eq,
      tracks.eligible_iff, tracks.sinceDecay_eq⟩

/-- One bump after the other. -/
theorem Tracks.bumpAll (tracks : n.Tracks b) {lits : List Lit} (inRange : ∀ l ∈ lits, l.var < n.vars) :
    Yields (Branching.bumpAll lits b) (Tracks (lits.foldl (fun n l => n.bump l.var) n)) := by
  induction lits generalizing n b with
  | nil => exact yields_pure_iff.mpr tracks
  | cons l rest ih =>
    apply (tracks.bump (inRange l (List.mem_cons_self ..))).bind
    intro middle bumped
    exact ih bumped fun other member => inRange other (List.mem_cons_of_mem _ member)

theorem vars_bumpAll (n : NaiveBranching) (lits : List Lit) :
    (lits.foldl (fun n l => n.bump l.var) n).vars = n.vars := by
  induction lits generalizing n with
  | nil => rfl
  | cons l rest ih => exact ih (n.bump l.var)

theorem Tracks.learn (tracks : n.Tracks b) (small : n.vars ≤ variableLimit) {lits : List Lit}
    (inRange : ∀ l ∈ lits, l.var < n.vars) :
    Yields (b.learn lits) fun (decayed, b') =>
      (n.learn lits).1 = decayed ∧ (n.learn lits).2.Tracks b' := by
  apply (tracks.bumpAll inRange).bind
  rw [← vars_bumpAll n lits] at small
  rw [NaiveBranching.learn]
  generalize lits.foldl (fun n l => n.bump l.var) n = raised at small ⊢
  intro middle bumped
  obtain ⟨fit, ordered, configEq, scoresEq, polarityEq, eligibleIff, sinceDecayEq⟩ := bumped
  have next := Nat.mod_add_mod raised.learned (max raised.config.decayInterval 1) 1
  rw [← sinceDecayEq] at next
  have within : middle.sinceDecay < max raised.config.decayInterval 1 :=
    sinceDecayEq ▸ Nat.mod_lt _ (by omega)
  simp only
  split
  · rename_i early
    rw [configEq] at early
    rw [Nat.mod_eq_of_lt (by omega)] at next
    have apart : ¬ max raised.config.decayInterval 1 ∣ raised.learned + 1 := by
      rw [Nat.dvd_iff_mod_eq_zero, ← next]
      exact Nat.succ_ne_zero _
    rw [if_neg apart]
    exact yields_pure_iff.mpr ⟨rfl, ⟨fit.scores_size, fit.polarity_size, fit.queued_size, fit.inRange,
      fit.listed⟩, ⟨ordered.sorted, ordered.current, ordered.marked⟩, configEq, scoresEq, polarityEq,
      eligibleIff, next⟩
  · rename_i due
    rw [configEq] at due
    have full : middle.sinceDecay + 1 = max raised.config.decayInterval 1 := by omega
    rw [full, Nat.mod_self] at next
    rw [if_pos (Nat.dvd_of_mod_eq_zero next.symm)]
    refine yields_pure_iff.mpr ⟨rfl, fit.decay, Branching.ordered_decay middle, configEq, ?_, polarityEq,
      fun var => ?_, next⟩
    · intro var inRange
      rw [← configEq]
      simp [Branching.decay, Branching.refill, scoresEq var inRange]
    · rw [Branching.queued_decay_iff, fit.scores_size, Branching.mod_varLimit_eq small, eligibleIff]
      refine (and_iff_right_of_imp fun queued => ?_).symm
      obtain ⟨inBounds, -⟩ := Array.getElem?_eq_some_iff.mp queued
      exact fit.queued_size ▸ inBounds

/-- The candidates in the queue are those of the scores, so the one that comes before outranks. -/
theorem Tracks.outranks_iff (tracks : n.Tracks b) {c d : Candidate} (member : c ∈ b.queue.candidates)
    (member' : d ∈ b.queue.candidates) : n.outranks c.var d.var = true ↔ c.before d = true := by
  have same : ∀ e ∈ b.queue.candidates, n.candidate e.var = e := fun e listed =>
    ((tracks.ordered.current e listed).trans (tracks.candidate_eq (tracks.fit.inRange e listed))).symm
  rw [NaiveBranching.outranks_iff, same c member, same d member']

/-- The search for an unassigned candidate ends. -/
private theorem firstUnassigned_ends (candidates : List Candidate) {queued : Array Bool}
    (inRange : ∀ c ∈ candidates, c.var < queued.size ∧ c.var < t.varCount) :
    ∃ result, Branching.firstUnassigned t candidates queued = .ok result := by
  induction candidates generalizing queued with
  | nil => exact ⟨_, rfl⟩
  | cons c rest ih =>
    obtain ⟨⟨inBounds, inTrail⟩, later⟩ := List.forall_mem_cons.mp inRange
    rw [Branching.firstUnassigned, store_of_lt _ inBounds, ok_bind, Trail.isAssigned_of_lt inTrail, ok_bind]
    split
    · exact ih (by simpa using later)
    · exact ⟨_, rfl⟩

/-- What a search leaves in the queue are the variables that may be decided afterwards. -/
private theorem Tracks.of_firstUnassigned (tracks : n.Tracks b) {chosen : Option Nat}
    {left : List Candidate} {queued : Array Bool}
    (searched : Branching.firstUnassigned t b.queue.candidates b.queued = .ok (chosen, left, queued))
    {eligible : Finset Nat} (same : ∀ var, var ∈ eligible ↔ queued[var]? = some true) :
    Tracks { n with eligible } { b with queue := ⟨left⟩, queued } := by
  have ordered := tracks.ordered.of_firstUnassigned searched
  obtain ⟨passed, taken, split, -, -, -, -, size, marks⟩ :=
    Branching.exists_of_firstUnassigned searched
  obtain ⟨fit, -, configEq, scoresEq, polarityEq, -, sinceDecayEq⟩ := tracks
  refine ⟨⟨fit.scores_size, fit.polarity_size, size.trans fit.queued_size, fun c member => ?_,
    fun var marked => ?_⟩, ordered, configEq, scoresEq, polarityEq, same, sinceDecayEq⟩
  · exact fit.inRange c (split ▸ List.mem_append_right _ member)
  · obtain ⟨before, others⟩ := (marks var).mp marked
    obtain ⟨c, member, rfl⟩ := fit.listed var before
    rw [split] at member
    exact ⟨c, (List.mem_append.mp member).resolve_left fun earlier => others c earlier rfl, rfl⟩

section Split
variable {passed left : List Candidate} {c : Candidate} {assigned : Nat → Bool}

/-- The first unassigned candidate is the best variable. -/
private theorem Tracks.best_of_split (tracks : n.Tracks b)
    (split : b.queue.candidates = passed ++ c :: left)
    (isAssigned : ∀ d ∈ passed, assigned d.var = true) (free : assigned c.var = false) :
    n.best assigned = some c.var := by
  have listed : c ∈ b.queue.candidates := by simp [split]
  have sorted := tracks.ordered.sorted
  rw [Queue.Sorted, split, List.pairwise_append, List.pairwise_cons] at sorted
  refine best_eq_some (tracks.fit.inRange c listed) (tracks.eligible_iff_mem.mpr ⟨c, listed, rfl⟩) free ?_
  intro other eligible free' differs
  obtain ⟨d, member, rfl⟩ := tracks.eligible_iff_mem.mp eligible
  have member' := member
  rw [split, List.mem_append, List.mem_cons] at member'
  rcases member' with before | rfl | after
  · rw [isAssigned d before] at free'
    cases free'
  · exact (differs rfl).elim
  · exact (tracks.outranks_iff listed member).mpr (sorted.2.1.1 d after)

/-- A decision on the first unassigned candidate drops it and the candidates before it. -/
private theorem Tracks.mem_eligible_iff_of_split (tracks : n.Tracks b)
    (split : b.queue.candidates = passed ++ c :: left)
    (isAssigned : ∀ d ∈ passed, assigned d.var = true) :
    var ∈ n.eligible.filter (fun other =>
        other ≠ c.var ∧ ¬ (assigned other = true ∧ n.outranks other c.var = true)) ↔
      b.Queued var ∧ ∀ d ∈ passed ++ [c], d.var ≠ var := by
  have listed : c ∈ b.queue.candidates := by simp [split]
  have sorted := tracks.ordered.sorted
  rw [Queue.Sorted, split, List.pairwise_append, List.pairwise_cons] at sorted
  obtain ⟨-, ⟨behind, -⟩, across⟩ := sorted
  rw [Finset.mem_filter, tracks.eligible_iff, List.forall_mem_append, List.forall_mem_singleton]
  refine and_congr_right fun queued => ?_
  obtain ⟨d, member, rfl⟩ := tracks.fit.listed var queued
  constructor
  · rintro ⟨differs, notPassed⟩
    refine ⟨fun e earlier same => ?_, differs.symm⟩
    have listed' : e ∈ b.queue.candidates := split ▸ List.mem_append_left _ earlier
    refine notPassed (same ▸ ⟨isAssigned e earlier, ?_⟩)
    exact (tracks.outranks_iff listed' listed).mpr (across e earlier c (List.mem_cons_self ..))
  · rintro ⟨notBefore, differs⟩
    refine ⟨differs.symm, fun passedOver => ?_⟩
    have member' := member
    rw [split, List.mem_append, List.mem_cons] at member'
    rcases member' with before | rfl | after
    · exact notBefore d before rfl
    · exact differs rfl
    · exact not_outranks_of_outranks passedOver.2
        ((tracks.outranks_iff listed member).mpr (behind d after))

end Split

/-- What the search for a candidate passes over and takes is what the naive heuristic drops and decides. -/
theorem Tracks.pick (tracks : n.Tracks b) (small : n.vars ≤ variableLimit) (wide : n.vars ≤ t.varCount) :
    Yields (b.pick t) fun (choice, b') =>
      (n.pick t.marked).1 = choice ∧ (n.pick t.marked).2.Tracks b' := by
  have inTrail : ∀ c ∈ b.queue.candidates, c.var < t.varCount := fun c member =>
    Nat.lt_of_lt_of_le (tracks.fit.inRange c member) wide
  obtain ⟨⟨chosen, left, queued⟩, searched⟩ :
      ∃ result, Branching.firstUnassigned t b.queue.candidates b.queued = .ok result :=
    firstUnassigned_ends _ fun c member =>
      ⟨tracks.fit.queued_size ▸ tracks.fit.inRange c member, inTrail c member⟩
  obtain ⟨passed, taken, split, same, exhausted, assigned, unassigned, -, marks⟩ :=
    Branching.exists_of_firstUnassigned searched
  have found : ∀ {value : Bool}, ∀ c ∈ b.queue.candidates, t.isAssigned c.var = .ok value →
      t.marked c.var = value := fun c member looked =>
    Except.ok.inj ((Trail.isAssigned_of_lt (inTrail c member)).symm.trans looked)
  have marked : ∀ c ∈ passed, t.marked c.var = true := fun c member =>
    found c (by simp [split, member]) (assigned c member)
  rw [Branching.pick, searched, ok_bind, NaiveBranching.pick]
  cases chosen with
  | none =>
    obtain rfl : taken = [] := List.map_eq_nil_iff.mp same
    obtain rfl : left = [] := exhausted rfl
    rw [List.append_nil, List.append_nil] at split
    have all : ∀ var ∈ n.eligible, t.marked var = true := by
      intro var eligible
      obtain ⟨c, member, rfl⟩ := tracks.eligible_iff_mem.mp eligible
      exact marked c (split ▸ member)
    rw [best_eq_none all]
    refine yields_pure_iff.mpr ⟨rfl, tracks.of_firstUnassigned searched fun var => ?_⟩
    refine iff_of_false (Finset.notMem_empty var) fun here => ?_
    obtain ⟨before, others⟩ := (marks var).mp here
    obtain ⟨c, member, rfl⟩ := tracks.fit.listed var before
    exact others c (by simpa [split] using member) rfl
  | some var =>
    obtain ⟨c, rfl, rfl⟩ := List.map_eq_singleton_iff.mp same
    rw [List.append_assoc, List.singleton_append] at split
    have listed : c ∈ b.queue.candidates := by simp [split]
    have inRange := tracks.fit.inRange c listed
    rw [tracks.best_of_split split marked (found c listed (unassigned c (List.mem_singleton_self c)))]
    have fetched : fetch b.polarity c.var = .ok (n.polarity c.var) :=
      fetch_eq_ok_iff.mpr (tracks.polarity_eq c.var inRange)
    simp only [fetched, Lit.ofVar_of_lt inRange small, ok_bind]
    exact yields_pure_iff.mpr ⟨rfl, tracks.of_firstUnassigned searched fun var =>
      (tracks.mem_eligible_iff_of_split split marked).trans (marks var).symm⟩

end Steps

section Calls
variable {n : NaiveBranching} {b : Branching}

theorem vars_call (n : NaiveBranching) (c : Call) : (n.call c).2.vars = n.vars := by
  cases c with
  | pick t =>
    rw [call, pick]
    split <;> rfl
  | release a => rfl
  | learn lits =>
    simp only [call, learn]
    split <;> exact vars_bumpAll n lits

/-- The two answer a call alike. -/
theorem Tracks.call (tracks : n.Tracks b) (small : n.vars ≤ variableLimit) {c : Call}
    (within : c.Within n.vars) :
    Yields (b.call c) fun (answer, b') => (n.call c).1 = answer ∧ (n.call c).2.Tracks b' := by
  cases c with
  | pick t =>
    apply (tracks.pick small within).bind
    rintro ⟨choice, b'⟩ ⟨same, tracks'⟩
    exact yields_pure_iff.mpr ⟨congrArg _ same, tracks'⟩
  | release a =>
    apply (tracks.release within).bind
    intro b' tracks'
    exact yields_pure_iff.mpr ⟨rfl, tracks'⟩
  | learn lits =>
    apply (tracks.learn small within).bind
    rintro ⟨decayed, b'⟩ ⟨same, tracks'⟩
    exact yields_pure_iff.mpr ⟨congrArg _ same, tracks'⟩

/-- The two answer any calls alike. -/
theorem Tracks.serve (tracks : n.Tracks b) (small : n.vars ≤ variableLimit) {calls : List Call}
    (within : ∀ c ∈ calls, c.Within n.vars) :
    Yields (b.serve calls) fun (answers, b') =>
      (n.serve calls).1 = answers ∧ (n.serve calls).2.Mirrors n.vars b' := by
  induction calls generalizing n b with
  | nil => exact yields_pure_iff.mpr ⟨rfl, tracks.mirrors⟩
  | cons c rest ih =>
    obtain ⟨here, later⟩ := List.forall_mem_cons.mp within
    apply (tracks.call small here).bind
    rintro ⟨answer, middle⟩ ⟨same, tracks'⟩
    have vars := vars_call n c
    apply (ih tracks' (vars.symm ▸ small) (vars.symm ▸ later)).bind
    rintro ⟨answers, b'⟩ ⟨sames, mirrors⟩
    exact yields_pure_iff.mpr ⟨congrArg₂ List.cons same sames, vars ▸ mirrors⟩

/-- Three clauses, each of which has the second variable in it. -/
def centred : Database :=
  ((({} : Database).addInput [⟨0, false⟩, ⟨1, false⟩]).addInput [⟨1, false⟩, ⟨2, true⟩]).addInput
    [⟨1, true⟩, ⟨2, true⟩]

/-- A decision while the second variable has a value, two clauses learned with a release in between, and
three decisions while no variable has one. -/
def interleaved : List Call :=
  [.pick ⟨#[⟨⟨1, false⟩, 1, .decision⟩], #[0, 0], #[.unknown, .holds, .unknown], #[0, 0, 0], 0⟩,
    .learn [⟨0, false⟩, ⟨0, true⟩, ⟨2, true⟩], .release ⟨⟨2, true⟩, 2, .decision⟩, .learn [⟨2, false⟩],
    .pick (.empty 3), .pick (.empty 3), .pick (.empty 3)]

/-- Whatever is asked of it after its start, the heuristic with the queue answers as the naive one does,
and its queue is that of the eligible variables by their present scores. -/
theorem serve_eq (config : BranchingConfig) {vars : Nat} (small : vars ≤ variableLimit) {db : Database}
    (inRange : ∀ l ∈ db.inputs.flatMap Clause.lits, l.var < vars) :
    ∃ b, Branching.new config vars db = .ok b ∧
      ∀ calls : List Call, (∀ c ∈ calls, c.Within vars) →
        ∃ b', b.serve calls = .ok (((new config vars db).serve calls).1, b') ∧
          ((new config vars db).serve calls).2.Mirrors vars b' := by
  obtain ⟨b, made, tracks⟩ := tracks_new config small inRange
  refine ⟨b, made, fun calls within => ?_⟩
  obtain ⟨⟨answers, b'⟩, served, same, mirrors⟩ := tracks.serve small within
  exact ⟨b', same ▸ served, mirrors⟩

/-- The most frequent variable is passed over because it has a value, and is not decided until it is
released. Of the others, the one that was decided first comes first again after it was released, since its
score was raised more often before the scores decayed. -/
theorem serve_eq_passed_over : 3 ≤ variableLimit ∧
    (∀ l ∈ centred.inputs.flatMap Clause.lits, l.var < 3) ∧ (∀ c ∈ interleaved, c.Within 3) ∧
      ((new { decayInterval := 2 } 3 centred).serve interleaved).1 =
        [.picked (some ⟨2, true⟩), .learned false, .released, .learned true, .picked (some ⟨2, true⟩),
          .picked (some ⟨0, false⟩), .picked none] ∧
      ∃ b, Branching.new { decayInterval := 2 } 3 centred = .ok b ∧
        ∀ calls : List Call, (∀ c ∈ calls, c.Within 3) →
          ∃ b', b.serve calls = .ok (((new { decayInterval := 2 } 3 centred).serve calls).1, b') ∧
            ((new { decayInterval := 2 } 3 centred).serve calls).2.Mirrors 3 b' := by
  have inRange : ∀ l ∈ centred.inputs.flatMap Clause.lits, l.var < 3 := by decide
  refine ⟨by decide, inRange, ?_, by decide +kernel,
    serve_eq { decayInterval := 2 } (by decide) inRange⟩
  simp [interleaved, Call.Within, Trail.varCount, Trail.empty, Assignment.var]

end Calls

end NaiveBranching

end ClauseLearning
