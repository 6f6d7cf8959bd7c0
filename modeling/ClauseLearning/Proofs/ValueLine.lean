import ClauseLearning.Proofs.Checked
import ClauseLearning.Satisfaction
import Mathlib.Algebra.Group.Nat.Defs

/-! # The line of a model

The line of a model lists, for each variable in order, the literal of the variable that the model makes
true. As long as the literals have codes it can be made, and its integers satisfy what the model
satisfies.
-/

namespace ClauseLearning

/-- The line of a model with the given true literals as integers. -/
def valueLine (ints : List Int) : String := " ".intercalate ("v" :: ints.map toString ++ ["0"])

/-- The integers name each variable of the formula in order or its negation, and making all of them true
satisfies every clause. -/
structure Formula.TrueLiterals (f : Formula) (ints : List Int) : Prop where
  length : ints.length = f.varCount
  literal : ∀ (var : Nat) (x : Int), ints[var]? = some x → x = var + 1 ∨ x = -(var + 1)
  satisfies : ∀ clause ∈ f.toInts, ∃ x ∈ clause, x ∈ ints

theorem Lit.toInt_eq_or (l : Lit) : l.toInt = l.var + 1 ∨ l.toInt = -(l.var + 1) := by
  rw [Lit.toInt]
  split
  · exact .inr rfl
  · exact .inl rfl

namespace Model
variable {m : Model} {f : Formula}

def trueLit (m : Model) (var : Nat) : Lit := ⟨var, !m.toAssignment var⟩

theorem isTrue_trueLit (m : Model) (var : Nat) : (m.trueLit var).isTrue m.toAssignment = true := by
  simp only [Lit.isTrue, trueLit]
  cases m.toAssignment var <;> rfl

/-- A literal that is made true is the true one of its variable. -/
theorem eq_trueLit {l : Lit} (holds : l.isTrue m.toAssignment = true) : m.trueLit l.var = l := by
  obtain ⟨var, negative⟩ := l
  have value : m.toAssignment var = !negative := Bool.eq_not.mpr (bne_iff_ne.mp holds)
  simp [trueLit, value]

theorem trueLits_eq {vars : List Nat} (present : ∀ var ∈ vars, var < m.varCount)
    (small : m.varCount ≤ 2 ^ 31) :
    m.trueLits vars = .ok (vars.map fun var => (m.trueLit var).toInt) := by
  induction vars with
  | nil => rfl
  | cons var rest ih =>
    obtain ⟨here, others⟩ := List.forall_mem_cons.mp present
    have codes : Lit.codeLimit = 2 ^ 32 := rfl
    have sign (b : Bool) : b.toNat ≤ 1 := Bool.toNat_le b
    have value : m.value var = .ok (m.toAssignment var) := by
      rw [value, fetch_of_lt here, toAssignment, Array.getD_eq_getD_getElem?,
        Array.getElem?_eq_getElem here]
      rfl
    have literal : Lit.ofVar var (!m.toAssignment var) = .ok (m.trueLit var) := by
      have := sign (!m.toAssignment var)
      exact if_pos (by omega)
    simp only [trueLits, value, ok_bind, literal, ih others]
    rfl

theorem toInts_eq (small : m.varCount ≤ 2 ^ 31) :
    m.toInts = .ok ((List.range m.varCount).map fun var => (m.trueLit var).toInt) := by
  have limit : varLimit = 2 ^ 32 := rfl
  rw [toInts, Nat.mod_eq_of_lt (by omega)]
  exact trueLits_eq (fun var member => List.mem_range.mp member) small

/-- The line of a model that satisfies a formula can be made, and its literals satisfy the formula. -/
theorem text_yields (size : m.varCount = f.varCount) (small : f.varCount ≤ 2 ^ 31)
    (inRange : ∀ lits ∈ f.clauses.toList, ∀ l ∈ lits, l.var < f.varCount)
    (satisfied : f.SatisfiedBy m.toAssignment) :
    Yields m.text fun line => ∃ ints, f.TrueLiterals ints ∧ line = valueLine ints := by
  rw [text, toInts_eq (size ▸ small)]
  refine .intro rfl ⟨_, ⟨?_, ?_, ?_⟩, rfl⟩
  · rw [List.length_map, List.length_range, size]
  · intro var x found
    simp only [List.getElem?_map, Option.map_eq_some_iff, List.getElem?_eq_some_iff,
      List.getElem_range] at found
    obtain ⟨_, ⟨-, rfl⟩, rfl⟩ := found
    exact (m.trueLit var).toInt_eq_or
  · intro clause member
    obtain ⟨lits, inFormula, rfl⟩ := List.mem_map.mp member
    obtain ⟨l, inClause, holds⟩ := satisfied lits inFormula
    refine ⟨l.toInt, List.mem_map_of_mem inClause, List.mem_map.mpr ⟨l.var, ?_, ?_⟩⟩
    · rw [size]
      exact List.mem_range.mpr (inRange lits inFormula l inClause)
    · rw [eq_trueLit holds]

end Model

end ClauseLearning
