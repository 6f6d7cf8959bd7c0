import ClauseLearning.Proofs.Correctness
import ClauseLearning.Proofs.Loading
import ClauseLearning.Proofs.Reading
import ClauseLearning.Proofs.Search.Move

/-! # How many variables a formula may have

A text may declare any number of variables, and reading does not ask whether the engine has a place for
all of them. Up to `variableLimit` it has: every variable has literals and is a candidate, and solving the
formula gives a solution. Beyond that some variables have no literals, and the candidates are counted
modulo 2 ^ 32.

No formula over so many variables gets a model. The invariant is `Coded`: clauses that are read or learned,
and decisions, are made of literals that have codes, so the first variable without literals is never
assigned, whereas a model is given only when all variables are.
-/

namespace ClauseLearning

/-- No clause and no decision has a variable without literals. -/
structure Workspace.Coded {σ : Type} (work : Workspace σ) : Prop where
  clauses : ∀ id, ∀ l ∈ work.db.litsOf id, l.var < variableLimit
  decisions : ∀ a ∈ work.trail.stack, a.isDecision = true → a.var < variableLimit

/-- What the last step of an analysis or of a search vouches for: the literals of the clause learned fail,
and a formula refuted has no model. -/
def Phase.Vouched (start : Database) (stack : List Assignment) : Phase → Prop
  | .backtracking analysis => ∀ l ∈ analysis.learned, l.FailsOn stack
  | .finished (.ok .unsat) => ∀ assignment, ¬ start.SatisfiedBy assignment
  | _ => True

/-- The literals of a formula that was built have codes. -/
theorem Formula.Built.var_lt {f : Formula} (built : f.Built) :
    ∀ lits ∈ f.clauses.toList, ∀ l ∈ lits, l.var < variableLimit := by
  intro lits member l inside
  obtain ⟨x, ⟨⟨nonzero, -⟩, moderate⟩, rfl⟩ := built.grown.fits lits member l inside
  simp only [Lit.ofNonzero, variableLimit]
  omega

namespace Workspace.Coded
variable {σ : Type} {work work' : Workspace σ}

/-- What is implied comes from a clause, so no variable without literals is assigned. -/
theorem assigned (coded : work.Coded) (grounded : Grounded work.db work.trail.stack) :
    ∀ a ∈ work.trail.stack, a.var < variableLimit := by
  intro a member
  cases reason : a.reason with
  | decision => exact coded.decisions a member (by simp [Assignment.isDecision, reason])
  | implied id => exact coded.clauses id a.lit (grounded.mem_litsOf member reason)

/-- Propagation adds no clause and makes no decision. -/
theorem advanced (coded : work.Coded) (advanced : work.Advanced work') : work'.Coded := by
  refine ⟨fun id l member => coded.clauses id l (advanced.reordered.mem_iff.mp member), ?_⟩
  obtain ⟨added, grown, forced⟩ := advanced.grown
  rw [grown]
  intro a member decision
  rcases List.mem_append.mp member with new | old
  · simp [(forced a new).2] at decision
  · exact coded.decisions a old decision

end Workspace.Coded

namespace Solver
variable {σ : Type} [Tracer σ] {f : Formula} {config : Config} {tracer : σ} {vars : Nat}
  {start : Database} {phase phase' : Phase} {s s' : Solver σ} {outcome : Except EngineError Verdict}

omit [Tracer σ] in
/-- The clause learned is made of variables that are assigned. -/
theorem Learned.coded {analysis : Analysis} (learned : Learned vars start s analysis s')
    (coded : s.work.Coded) (intact : Intact vars start s.work.db s.work.trail)
    (fails : ∀ l ∈ analysis.learned, l.FailsOn s.work.trail.stack) : s'.work.Coded := by
  constructor
  · rw [learned.db_eq]
    have extended := s.work.db.extended_addLearned analysis.learned
    intro id l member
    by_cases new : id = s.work.db.size
    · rw [new, extended.litsOf_new, List.mem_eraseDups] at member
      obtain ⟨a, listed, same⟩ := fails l member
      exact Assignment.var_eq_of_lit_eq_negate same ▸ coded.assigned intact.grounded a listed
    · rw [extended.litsOf_old id new] at member
      exact coded.clauses id l member
  · rw [learned.trail_eq, (intact.coherent.backTo analysis.backtrackLevel).stack_eq]
    exact fun a left => coded.decisions a (cut_subset _ _ left)

/-- A decision is on a variable that has literals, whatever becomes of all others. -/
theorem Consistent.coded_step (consistent : Consistent vars config start phase s)
    (coded : s.work.Coded) (vouched : phase.Vouched start s.work.trail.stack)
    (stepped : Solver.step phase s = .ok (phase', s')) :
    s'.work.Coded ∧ phase'.Vouched start s'.work.trail.stack := by
  have intact := consistent.intact
  cases phase with
  | deciding =>
    obtain ⟨⟨choice, branching⟩, picked, onward⟩ := Checked.bind_eq_ok_iff.mp stepped
    cases choice with
    | none =>
      cases onward
      exact ⟨coded, trivial⟩
    | some l =>
      obtain ⟨decided, decision, same⟩ := Checked.bind_eq_ok_iff.mp onward
      cases same
      obtain ⟨t', chosen, same⟩ := Checked.bind_eq_ok_iff.mp decision
      cases same
      refine ⟨⟨coded.clauses, ?_⟩, trivial⟩
      simp only [(intact.coherent.made_of_choose chosen).stack_eq]
      exact List.forall_mem_cons.mpr ⟨fun _ => Branching.var_lt_of_pick picked, coded.decisions⟩
  | propagating =>
    obtain ⟨⟨conflict, p', work'⟩, propagated, same⟩ := Checked.bind_eq_ok_iff.mp stepped
    cases same
    refine ⟨coded.advanced (consistent.outcome propagated).advanced, ?_⟩
    cases conflict <;> exact trivial
  | analyzing conflict =>
    have valid := consistent.valid rfl
    have level := intact.coherent.level_eq
    rcases exists_of_step_analyzing stepped with ⟨noted, counted, ⟨bottom, rfl, rfl⟩ | ⟨above, -⟩⟩
    · obtain ⟨-, inBounds, fails, -⟩ := valid
      obtain rfl := eq_of_noteConflict counted
      exact ⟨⟨coded.clauses, coded.decisions⟩, intact.not_satisfiedBy (level ▸ bottom) inBounds fails⟩
    · obtain ⟨analysis, rfl, analyzed⟩ :=
        (step_analyzing_yields_analyzed valid (level ▸ above)).of_eq stepped
      refine ⟨⟨?_, ?_⟩, analyzed.trail_eq ▸ analyzed.fails⟩
      · exact analyzed.db_eq ▸ coded.clauses
      · exact analyzed.trail_eq ▸ coded.decisions
  | backtracking analysis =>
    obtain ⟨rfl, learned⟩ :=
      (step_backtracking_yields_learned (consistent.valid rfl) consistent.fit).of_eq stepped
    exact ⟨learned.coded coded intact vouched, trivial⟩
  | finished outcome =>
    cases stepped
    exact ⟨coded, vouched⟩

/-- So it is for all steps of a search. -/
theorem Consistent.coded_follows (consistent : Consistent vars config start .propagating s)
    (coded : s.work.Coded) (follows : Follows .propagating s phase s') :
    Consistent vars config start phase s' ∧ s'.work.Coded ∧ phase.Vouched start s'.work.trail.stack := by
  induction follows with
  | refl => exact ⟨consistent, coded, trivial⟩
  | tail _ stepped ih =>
    obtain ⟨consistent', coded', vouched⟩ := ih
    exact ⟨(consistent'.step stepped).1, consistent'.coded_step coded' vouched stepped⟩

omit [Tracer σ] in
/-- A formula that was built is loaded with literals that have codes. -/
theorem LoadedFrom.coded {loading : Loading σ} (source : LoadedFrom f config loading s)
    (built : f.Built) : s.work.Coded := by
  constructor
  · rw [source.db_eq]
    intro id l member
    have inBounds := Database.lt_size_of_mem member
    have listed := Database.mem_clauses_iff.mpr ⟨id, inBounds, rfl⟩
    rw [source.sifted.clauses_eq] at listed
    obtain ⟨lits, given, same⟩ := List.mem_map.mp listed
    rw [Database.litsOf_eq_of_lt inBounds, ← same] at member
    exact built.var_lt lits (List.mem_filter.mp given).1 l (List.mem_eraseDups.mp member)
  · rw [source.trail_eq, Trail.stack_empty]
    nofun

/-- Only a trail on which every variable is assigned is given as a model. -/
theorem model_conclude_eq_none (partly : s.work.trail.allAssigned ≠ true) :
    (s.conclude .sat).model = none := by
  simp [model, conclude, Trail.total?, partly]

/-- A formula with a variable that has no literals is given no model, and if it has one it is not refuted
either. -/
theorem not_solved_of_lt (built : f.Built) (large : variableLimit < f.varCount)
    (satisfiable : f.Satisfiable) (solution : Solution) : f.solve config ≠ .ok (.ok solution) := by
  intro solved
  have nonempty : f.hasEmptyClause ≠ true := fun empty =>
    not_satisfiable_of_hasEmptyClause empty satisfiable
  rw [Formula.solve, if_neg nonempty] at solved
  obtain ⟨s, made, onward⟩ := Checked.bind_eq_ok_iff.mp solved
  obtain ⟨⟨outcome, t⟩, answered, onward⟩ := Checked.bind_eq_ok_iff.mp onward
  obtain ⟨emptied, unanswered⟩ := emptied_of_new built made
  obtain ⟨loading, source⟩ := exists_of_new built made
  cases answers_of_solve unanswered answered with
  | emptied empty => exact nonempty (emptied ▸ empty)
  | failed | doubted => cases onward
  | @concluded verdict t _ searched =>
    obtain ⟨consistent, coded, vouched⟩ := (Loaded.of_new built made).consistent.coded_follows
      (source.coded built) (.of_search searched)
    cases verdict with
    | unsat =>
      obtain ⟨assignment, satisfied⟩ := satisfiable
      refine vouched assignment ?_
      rw [source.db_eq, source.loaded.models]
      exact fun lits member _ => satisfied lits member
    | sat =>
      have total : t.work.trail.allAssigned = true := by
        by_contra partly
        simp only [model_conclude_eq_none partly] at onward
        cases onward
      obtain ⟨-, intact, -, -⟩ := consistent
      obtain ⟨a, member, same⟩ := intact.coherent.allAssigned_iff.mp total variableLimit
        (intact.varCount_eq.symm ▸ large)
      exact Nat.lt_irrefl _ (same ▸ coded.assigned intact.grounded a member)

/-- There is nothing to propagate, nothing to take back and nothing to decide. -/
structure Idle (s : Solver σ) : Prop where
  clauseless : s.work.db.size = 0
  blank : s.work.trail.stack = []
  exhausted : s.branching.queue.candidates = []

namespace Idle

/-- A formula without clauses leaves a solver idle if the candidates are counted from zero again. -/
theorem of_new (made : new config ⟨vars, #[]⟩ tracer = .ok s) (wraps : vars % Branching.varLimit = 0) :
    s.Idle := by
  obtain ⟨loading, source⟩ := exists_of_new (.new vars) made
  refine ⟨?_, by rw [source.trail_eq, Trail.stack_empty], ?_⟩
  · have none := congrArg List.length source.sifted.clauses_eq
    simpa [source.db_eq, Database.size] using none
  · rw [List.eq_nil_iff_forall_not_mem]
    intro c member
    have inRange := (source.listed_iff c.var).mp ⟨c, member, rfl⟩
    exact Nat.not_lt_zero _ (wraps ▸ inRange)

/-- Without clauses there is nothing to imply. -/
theorem propagated (idle : s.Idle) (consistent : Consistent vars config start .propagating s)
    {result : Propagated σ} (propagated : s.propagator.propagate s.work = .ok result) :
    result.conflict = none ∧ result.work.db.size = 0 ∧ result.work.trail.stack = [] := by
  have outcome := consistent.outcome propagated
  have size : result.work.db.size = 0 := outcome.advanced.reordered.size_eq.trans idle.clauseless
  refine ⟨?_, size, ?_⟩
  · by_contra conflicting
    obtain ⟨id, found⟩ := Option.ne_none_iff_exists'.mp conflicting
    exact absurd (outcome.falsified id found).inBounds (by omega)
  · obtain ⟨added, grown, forced⟩ := outcome.advanced.grown
    rw [idle.blank, List.append_nil] at grown
    rw [List.eq_nil_iff_forall_not_mem]
    intro a member
    cases reason : a.reason with
    | decision => simpa [Assignment.isDecision, reason] using (forced a (grown ▸ member)).2
    | implied id =>
      have listed := outcome.sound.grounded.mem_litsOf member reason
      exact absurd (Database.lt_size_of_mem listed) (by omega)

/-- So a search is over after two steps. -/
theorem search (idle : s.Idle) (consistent : Consistent vars config start .propagating s) :
    ∃ t, s.search = .ok (.ok .sat, t) ∧ t.Idle ∧ t.work.trail.varCount = vars := by
  obtain ⟨⟨conflict, p, work⟩, propagated, outcome⟩ :=
    Propagator.propagate_yields consistent.intact.sound (consistent.valid rfl).2
  obtain ⟨rfl, clauseless, blank⟩ := idle.propagated consistent propagated
  have varCount := outcome.advanced.varCount_eq.trans consistent.intact.varCount_eq
  obtain ⟨before, propagator, b, verifyModel, hasEmptyClause, status⟩ := s
  have first : step .propagating ⟨before, propagator, b, verifyModel, hasEmptyClause, status⟩ =
      .ok (.deciding, ⟨work, p, b, verifyModel, hasEmptyClause, status⟩) := by
    simp only [step, propagate]
    rw [propagated]
    rfl
  have exhausted : b.queue.candidates = [] := idle.exhausted
  have picked : b.pick work.trail = .ok (none, { b with queue := ⟨[]⟩ }) := by
    rw [Branching.pick, exhausted]
    rfl
  have second : step .deciding ⟨work, p, b, verifyModel, hasEmptyClause, status⟩ =
      .ok (.finished (.ok .sat), ⟨work, p, { b with queue := ⟨[]⟩ }, verifyModel, hasEmptyClause,
        status⟩) := by
    simp only [step, picked, ok_bind]
    rfl
  refine ⟨⟨work, p, { b with queue := ⟨[]⟩ }, verifyModel, hasEmptyClause, status⟩, ?_,
    ⟨clauseless, blank, rfl⟩, varCount⟩
  -- The first round makes one of the two steps, and the second round makes the other.
  simp only [Solver.search, runRounds, runRound, Phase.isFinished, Bool.false_eq_true, if_false, first,
    second, ok_bind, step_finished]
  rfl

omit [Tracer σ] in
/-- Without clauses no check fails. -/
theorem confirm (idle : s.Idle) (verdict : Verdict) : s.confirm verdict = .ok (.ok ()) := by
  have inputs : s.work.db.inputs = [] := by
    simp [Database.inputs, Array.size_eq_zero_iff.mp idle.clauseless]
  rw [Solver.confirm]
  split
  · rw [verify, inputs]
    rfl
  · rfl

omit [Tracer σ] in
theorem size_eq (idle : s.Idle) : s.work.trail.size = 0 :=
  Array.size_eq_zero_iff.mpr (by simpa [Trail.stack] using idle.blank)

end Idle

/-- If the candidates are counted from zero again, a formula without clauses ends with all of its variables
unassigned, as long as there is room for the tables. -/
theorem solve_eq_incompleteAssignment (room : HasRoom config vars) (positive : 0 < vars)
    (wraps : vars % Branching.varLimit = 0) :
    Formula.solve ⟨vars, #[]⟩ config = .ok (.error (.incompleteAssignment vars)) := by
  have built : (Formula.mk vars #[]).Built := .new vars
  obtain ⟨s, made⟩ : ∃ s : Solver Unit, new config ⟨vars, #[]⟩ () = .ok s := by
    obtain ⟨p, madeEmpty, -⟩ := Propagator.empty_yields room.1
    have counted := Branching.Occurrences.zero_of_lt room.2
    simp only [new, madeEmpty, Loading.addAll, Branching.new, counted, ok_bind, pure_bind_checked]
    exact ⟨_, rfl⟩
  obtain ⟨(nonempty : s.hasEmptyClause = false), unanswered⟩ := emptied_of_new built made
  obtain ⟨t, searched, idle, (varCount : t.work.trail.varCount = vars)⟩ :=
    (Idle.of_new made wraps).search (Loaded.of_new built made).consistent
  have answered : s.solve = .ok (.ok .sat, t.conclude .sat) := by
    simp only [solve, unanswered, judge, nonempty, Bool.false_eq_true, if_false, searched, ok_bind,
      idle.confirm]
    rfl
  have modelless : (t.conclude .sat).model = none := by
    refine model_conclude_eq_none fun total => Nat.ne_of_lt positive ?_
    exact idle.size_eq.symm.trans ((beq_iff_eq.mp total).trans varCount)
  have unassigned : (t.conclude .sat).work.trail.varCount - (t.conclude .sat).work.trail.size = vars := by
    have same : (t.conclude .sat).work.trail = t.work.trail := rfl
    rw [same, idle.size_eq, varCount, Nat.sub_zero]
  rw [Formula.solve, if_neg (by simp [Formula.hasEmptyClause]), made, ok_bind, answered, ok_bind]
  simp only [modelless, unassigned]
  rfl

/-- How many variables a formula may have that a text is read as. Up to `variableLimit` each of them has
literals, a solver can be loaded and solving gives a solution. Beyond that some have none, and a formula
with a model is given no solution. The candidates are the variables below the number modulo 2 ^ 32. -/
theorem handles_up_to_limit {text : String} (read : Dimacs.Reads text f) (config : Config) (tracer : σ) :
    ((∀ var < f.varCount, ∀ negative, Lit.ofVar var negative = .ok ⟨var, negative⟩) ↔
      f.varCount ≤ variableLimit) ∧
    (∀ s, new config f tracer = .ok s → ∀ var,
      (∃ c ∈ s.branching.queue.candidates, c.var = var) ↔ var < f.varCount % Branching.varLimit) ∧
    (f.varCount ≤ variableLimit →
      (∃ s, new config f tracer = .ok s) ∧ ∃ solution, f.solve config = .ok (.ok solution)) ∧
    (variableLimit < f.varCount → f.Satisfiable →
      ∀ solution, f.solve config ≠ .ok (.ok solution)) := by
  obtain ⟨warnings, read⟩ := read
  have built : f.Built := .read read
  refine ⟨⟨fun literals => ?_, fun small var inRange => Lit.ofVar_of_lt inRange small⟩, fun s made => ?_,
    fun small => ?_, fun large satisfiable => not_solved_of_lt built large satisfiable⟩
  · by_contra large
    have coded := literals variableLimit (Nat.lt_of_not_le large) false
    exact Nat.lt_irrefl _ (Lit.ofVar_eq_ok_iff.mp coded).1
  · obtain ⟨loading, source⟩ := exists_of_new built made
    exact source.listed_iff
  · obtain ⟨s, loaded, -⟩ := new_yields built small config tracer
    obtain ⟨verdict, s', answered⟩ := (Session.loaded loaded).exists_verdict built small
    obtain ⟨solution, solved, -⟩ := solve_reports built small loaded answered
    exact ⟨⟨s, loaded⟩, solution, solved⟩

/-- One clause over as many variables as have literals, and the same clause over one variable more. -/
theorem handles_up_to_limit_unit : ∃ f f' : Formula,
    Dimacs.Reads "p cnf 2147483648 1\n1 0\n" f ∧ Dimacs.Reads "p cnf 2147483649 1\n1 0\n" f' ∧
      (∃ solution, f.solve {} = .ok (.ok solution)) ∧ f'.Satisfiable ∧
        ∀ solution, f'.solve {} ≠ .ok (.ok solution) := by
  have read : Dimacs.readText "p cnf 2147483648 1\n1 0\n" =
      .ok (.ok ⟨2147483648, #[[⟨0, false⟩]]⟩, []) := by decide +kernel
  have read' : Dimacs.readText "p cnf 2147483649 1\n1 0\n" =
      .ok (.ok ⟨2147483649, #[[⟨0, false⟩]]⟩, []) := by decide +kernel
  have satisfiable : (Formula.mk 2147483649 #[[⟨0, false⟩]]).Satisfiable :=
    ⟨fun _ => true, by simp [Formula.SatisfiedBy, Satisfies, Lit.isTrue]⟩
  obtain ⟨-, -, solved, -⟩ := handles_up_to_limit ⟨_, read⟩ {} ()
  obtain ⟨-, -, -, unsolved⟩ := handles_up_to_limit ⟨_, read'⟩ {} ()
  exact ⟨_, _, ⟨_, read⟩, ⟨_, read'⟩, (solved (by decide)).2, satisfiable,
    unsolved (by decide) satisfiable⟩

/-- Of two texts that are read, the one declares a variable that has no literals, and solving the other one
leaves all of its variables unassigned. -/
theorem reads_more_than_handled :
    ¬ (∀ text f, Dimacs.Reads text f →
      ∀ var < f.varCount, ∀ negative, ∃ l, Lit.ofVar var negative = .ok l) ∧
    ¬ (∀ text f config unassigned, Dimacs.Reads text f →
      f.solve config ≠ .ok (.error (.incompleteAssignment unassigned))) := by
  constructor
  · intro literals
    have read : Dimacs.readText "p cnf 2147483649 0\n" = .ok (.ok ⟨2147483649, #[]⟩, []) := by
      decide +kernel
    obtain ⟨l, coded⟩ := literals _ _ ⟨_, read⟩ 2147483648 (by decide) false
    exact absurd (Lit.ofVar_eq_ok_iff.mp coded).1 (by decide)
  · intro assigned
    have read : Dimacs.readText "p cnf 4294967296 0\n" = .ok (.ok ⟨4294967296, #[]⟩, []) := by
      decide +kernel
    have room : HasRoom {} 4294967296 := ⟨fun _ => by decide, by decide⟩
    exact assigned _ _ {} _ ⟨_, read⟩ (solve_eq_incompleteAssignment room (by decide) (by decide))

end Solver

end ClauseLearning
