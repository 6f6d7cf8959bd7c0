import ClauseLearning.Proofs.Search.Loading
import ClauseLearning.Proofs.Trail.Models
import ClauseLearning.Solution

/-! # Verdicts and models

Once every variable is assigned and every clause is settled, any assignment that agrees with the trail
satisfies the database. Two models are read off the trail, one from the table of values to be reported
and one from the entries to be checked; both agree with it. So the check never fails, whether or not it
is made, and the model reported satisfies the formula.
-/

namespace ClauseLearning

section Agreement
variable {vars : Nat} {start db : Database} {t : Trail} {assignment : Nat → Bool}

/-- An assignment that agrees with a complete stack on which all clauses are settled satisfies them. -/
theorem Intact.satisfiedBy_of_agrees (intact : Intact vars start db t)
    (settled : db.SettledOn t.stack) (complete : ∀ var < vars, ∃ a ∈ t.stack, a.var = var)
    (agrees : AgreesWith assignment t.stack) : db.SatisfiedBy assignment := by
  rw [Database.satisfiedBy_iff]
  intro id inBounds
  rcases settled id inBounds with ⟨l, member, holds⟩ | ⟨l, member, _, _, _, isOpen, _⟩
  · exact ⟨l, member, agrees.isTrue holds⟩
  · obtain ⟨a, assigned, same⟩ := complete l.var (intact.wellFormed.inRange id l member)
    exact (openOn_iff.mp isOpen a assigned same).elim

end Agreement

namespace Solver
variable {σ : Type} {s s' : Solver σ} {f : Formula} {config : Config}

/-- No clause is found falsified if the model satisfies all of them. -/
theorem firstFalsified_eq_none {m : Model} {clauses : List Clause}
    (satisfied : ∀ clause ∈ clauses, m.satisfies clause.lits = .ok true) :
    firstFalsified m clauses = .ok none := by
  induction clauses with
  | nil => rfl
  | cons clause rest ih =>
    simp only [firstFalsified, satisfied clause (List.mem_cons_self ..), ok_bind, if_true]
    exact ih fun other member => satisfied other (List.mem_cons_of_mem _ member)

/-- The check of a model never fails. -/
theorem confirm_eq {vars : Nat} {start : Database} {verdict : Verdict}
    (evident : verdict.Evident vars start s.work.db s.work.trail) :
    s.confirm verdict = .ok (.ok ()) := by
  rw [confirm]
  split
  · rename_i checked
    obtain ⟨rfl, -⟩ := checked
    obtain ⟨intact, settled, complete⟩ := evident
    obtain ⟨size, agrees⟩ := intact.coherent.modelOfEntries_agrees
    have satisfied := intact.satisfiedBy_of_agrees settled complete agrees
    have inputs : ∀ clause ∈ s.work.db.inputs,
        (modelOfEntries s.work.trail).satisfies clause.lits = .ok true := by
      intro clause member
      have listed := (List.mem_filter.mp member).1
      refine ((modelOfEntries s.work.trail).satisfies_eq_ok_true_iff clause.lits ?_).mpr
        (satisfied clause listed)
      obtain ⟨id, inBounds, rfl⟩ := Database.mem_clauses_iff.mp listed
      intro l inClause
      rw [size, intact.varCount_eq]
      exact intact.wellFormed.inRange id l (Database.litsOf_eq_of_lt inBounds ▸ inClause)
    rw [verify, firstFalsified_eq_none inputs]
    rfl
  · rfl

structure Solved (f : Formula) (verdict : Verdict) (s : Solver σ) : Prop where
  status_eq : s.status = some verdict
  unsat : verdict = .unsat → ¬ f.Satisfiable
  sat : verdict = .sat → ∃ m, s.model = some m ∧ m.varCount = f.varCount ∧
    f.SatisfiedBy m.toAssignment

/-- A formula with an empty clause has no model. -/
theorem not_satisfiable_of_hasEmptyClause (empty : f.hasEmptyClause = true) : ¬ f.Satisfiable := by
  rintro ⟨assignment, satisfied⟩
  obtain ⟨lits, member, isEmpty⟩ := List.any_eq_true.mp empty
  obtain rfl := List.isEmpty_iff.mp isEmpty
  exact not_satisfies_nil assignment (satisfied [] member)

/-- A formula without empty clauses is satisfied by the models of what was loaded. -/
theorem Fresh.satisfiedBy_iff (fresh : Fresh f config s) (nonempty : f.hasEmptyClause = false)
    (assignment : Nat → Bool) : s.work.db.SatisfiedBy assignment ↔ f.SatisfiedBy assignment := by
  rw [fresh.models]
  refine forall₂_congr fun lits member => ?_
  have filled : lits ≠ [] := by
    rintro rfl
    exact Bool.false_ne_true (nonempty.symm.trans (List.any_eq_true.mpr ⟨[], member, rfl⟩))
  exact imp_iff_right filled

variable [Tracer σ]

/-- A fresh solver reaches a verdict, which is right, and has a model if the verdict is that there is
one. -/
theorem Fresh.solve_yields (fresh : Fresh f config s) (small : f.varCount ≤ variableLimit) :
    Yields s.solve fun (outcome, s') => ∃ verdict, outcome = .ok verdict ∧ Solved f verdict s' := by
  rw [solve, fresh.status_eq]
  simp only
  rw [judge, fresh.emptied]
  cases empty : f.hasEmptyClause with
  | true =>
    refine yields_pure_iff.mpr ⟨.unsat, rfl, rfl, fun _ => not_satisfiable_of_hasEmptyClause empty, ?_⟩
    intro sat
    cases sat
  | false =>
    rw [if_neg Bool.false_ne_true]
    apply (search_yields small fresh.valid fresh.affords fresh.fit fresh.offers).bind
    rintro ⟨outcome, t⟩ ⟨verdict, steps, rfl, -, evident⟩
    have same := fresh.satisfiedBy_iff empty
    simp only [confirm_eq evident, ok_bind]
    refine yields_pure_iff.mpr ⟨verdict, rfl, rfl, ?_, ?_⟩
    · rintro rfl ⟨assignment, satisfied⟩
      exact evident assignment ((same assignment).mpr satisfied)
    · rintro rfl
      obtain ⟨intact, settled, complete⟩ := evident
      obtain ⟨values, total, size, agrees⟩ :=
        intact.coherent.total?_eq (intact.varCount_eq.symm ▸ complete)
      refine ⟨⟨values⟩, ?_, size.trans intact.varCount_eq, ?_⟩
      · simp [model, conclude, total]
      · rw [← same, ← intact.models]
        exact intact.satisfiedBy_of_agrees settled complete agrees

/-- Once there is a verdict, it is given again and nothing changes. -/
theorem solve_eq_of_status {verdict : Verdict} (answered : s.status = some verdict) :
    s.solve = .ok (.ok verdict, s) := by
  rw [solve, answered]
  rfl

/-- How a solver that has no verdict yet answers. Without an empty clause there is a search, the outcome
of which may be an error, a model that fails its check, or a verdict that is kept. -/
inductive Answers (s : Solver σ) : Except EngineError Verdict → Solver σ → Prop
  | emptied : s.hasEmptyClause = true → Answers s (.ok .unsat) (s.conclude .unsat)
  | failed {e : EngineError} {t : Solver σ} : s.hasEmptyClause = false →
      s.search = .ok (.error e, t) → Answers s (.error e) t
  | doubted {e : EngineError} {t : Solver σ} : s.hasEmptyClause = false →
      s.search = .ok (.ok .sat, t) → Answers s (.error e) t
  | concluded {verdict : Verdict} {t : Solver σ} : s.hasEmptyClause = false →
      s.search = .ok (.ok verdict, t) → Answers s (.ok verdict) (t.conclude verdict)

theorem answers_of_solve {outcome : Except EngineError Verdict} (unanswered : s.status = none)
    (answered : s.solve = .ok (outcome, s')) : Answers s outcome s' := by
  rw [solve, unanswered] at answered
  obtain ⟨⟨judged, t⟩, found, onward⟩ := Checked.bind_eq_ok_iff.mp answered
  rw [judge] at found
  split at found
  · rename_i empty
    cases found
    cases onward
    exact .emptied empty
  rename_i nonempty
  have nonempty : s.hasEmptyClause = false := Bool.eq_false_iff.mpr nonempty
  cases judged with
  | error e =>
    cases onward
    exact .failed nonempty found
  | ok verdict =>
    obtain ⟨confirmed, checked, onward⟩ := Checked.bind_eq_ok_iff.mp onward
    cases confirmed with
    | error e =>
      cases onward
      rw [confirm] at checked
      split at checked
      · rename_i sat
        obtain ⟨rfl, -⟩ := sat
        exact .doubted nonempty found
      · cases checked
    | ok _ =>
      cases onward
      exact .concluded nonempty found

/-- The solvers that come of loading a formula and asking for a verdict any number of times. -/
inductive Session (f : Formula) (config : Config) : Solver σ → Prop
  | loaded {s : Solver σ} {tracer : σ} : Solver.new config f tracer = .ok s → Session f config s
  | asked {s s' : Solver σ} {outcome : Except EngineError Verdict} : Session f config s →
      s.solve = .ok (outcome, s') → Session f config s'

/-- The solver was asked for a verdict a number of times since. -/
inductive Asked (s : Solver σ) : Nat → Solver σ → Prop
  | never : Asked s 0 s
  | again {times : Nat} {t u : Solver σ} {outcome : Except EngineError Verdict} : Asked s times t →
      t.solve = .ok (outcome, u) → Asked s (times + 1) u

theorem Asked.session {times : Nat} (asked : s.Asked times s') (session : Session f config s) :
    Session f config s' := by
  induction asked with
  | never => exact session
  | again _ answered ih => exact ih.asked answered

/-- A solver in a session reaches a verdict, which is right. -/
private theorem Session.solve_yields (session : Session f config s) (built : f.Built)
    (small : f.varCount ≤ variableLimit) :
    Yields s.solve fun (outcome, s') => ∃ verdict, outcome = .ok verdict ∧ Solved f verdict s' := by
  induction session with
  | loaded new => exact ((new_yields built small config _).of_eq new).solve_yields small
  | asked _ same ih =>
    obtain ⟨verdict, rfl, solved⟩ := ih.of_eq same
    rw [solve_eq_of_status solved.status_eq]
    exact yields_ok_iff.mpr ⟨verdict, rfl, solved⟩

theorem Session.exists_verdict (session : Session f config s) (built : f.Built)
    (small : f.varCount ≤ variableLimit) : ∃ verdict s', s.solve = .ok (.ok verdict, s') := by
  obtain ⟨⟨outcome, s'⟩, same, verdict, rfl, -⟩ := session.solve_yields built small
  exact ⟨verdict, s', same⟩

theorem Session.solved_of_eq {verdict : Verdict} (session : Session f config s) (built : f.Built)
    (small : f.varCount ≤ variableLimit) (answered : s.solve = .ok (.ok verdict, s')) :
    Solved f verdict s' := by
  obtain ⟨verdict, same, solved⟩ := (session.solve_yields built small).of_eq answered
  cases same
  exact solved

end Solver

end ClauseLearning
