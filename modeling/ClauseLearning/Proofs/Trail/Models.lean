import ClauseLearning.Proofs.Input.Acceptance
import ClauseLearning.Proofs.Tables
import ClauseLearning.Proofs.Trail.InUse
import ClauseLearning.Proofs.ValueLine
import ClauseLearning.Search.Solver

/-! # The models of a trail

Two models are read off a trail: one from the table of values, which is reported, and one from the entries,
in which an unassigned variable is false, which is checked. Both agree with the entries, so they are the
same once every variable is assigned. Then a literal that holds on the trail is one that the model makes
true, and it is in the line of the model.
-/

namespace ClauseLearning

/-- The assignment makes every literal of the stack true. -/
def AgreesWith (assignment : Nat → Bool) (stack : List Assignment) : Prop :=
  ∀ a ∈ stack, assignment a.var = a.value

namespace AgreesWith
variable {assignment : Nat → Bool} {stack : List Assignment} {l : Lit}

/-- A literal that holds on a stack is made true by what agrees with the stack. -/
theorem isTrue (agrees : AgreesWith assignment stack) (holds : l.HoldsOn stack) :
    l.isTrue assignment = true := by
  obtain ⟨a, member, rfl⟩ := holds
  have value : assignment a.lit.var = !a.lit.negative := agrees a member
  rw [Lit.isTrue, value]
  cases a.lit.negative <;> rfl

/-- No other literal of a variable that is assigned is made true. -/
theorem isTrue_iff (agrees : AgreesWith assignment stack) (assigned : ∃ a ∈ stack, a.var = l.var) :
    l.isTrue assignment = true ↔ l.HoldsOn stack := by
  refine ⟨fun held => ?_, agrees.isTrue⟩
  obtain ⟨a, member, same⟩ := assigned
  rcases Lit.eq_or_eq_negate same with equal | equal
  · exact ⟨a, member, equal⟩
  · have negated := agrees.isTrue ⟨a, member, equal⟩
    simp [held] at negated

end AgreesWith

namespace Model
variable {m m' : Model} {l : Lit} {var : Nat}

/-- The table of a model holds its assignment. -/
theorem getElem?_values (inRange : var < m.varCount) : m.values[var]? = some (m.toAssignment var) := by
  have bound : var < m.values.size := inRange
  simp [toAssignment, bound]

/-- A variable counted from one has its value. -/
theorem valueOfId?_succ (inRange : var < m.varCount) :
    m.valueOfId? (var + 1) = some (m.toAssignment var) := getElem?_values inRange

/-- Models that agree with a stack on which every variable is assigned are the same. -/
theorem eq_of_agrees {stack : List Assignment} (sameCount : m.varCount = m'.varCount)
    (complete : ∀ var < m.varCount, ∃ a ∈ stack, a.var = var) (agrees : AgreesWith m.toAssignment stack)
    (agrees' : AgreesWith m'.toAssignment stack) : m = m' := by
  refine congrArg Model.mk (Array.ext_getElem? fun var => ?_)
  rcases Nat.lt_or_ge var m.varCount with inRange | outOfRange
  · obtain ⟨a, member, rfl⟩ := complete var inRange
    rw [getElem?_values inRange, getElem?_values (sameCount ▸ inRange), agrees a member, agrees' a member]
  · have outOfRange' : m'.varCount ≤ var := sameCount ▸ outOfRange
    rw [Array.getElem?_eq_none outOfRange, Array.getElem?_eq_none outOfRange']

/-- Among the true literals of all variables are exactly those that the model makes true. -/
theorem toInt_mem_trueLits_iff (inRange : l.var < m.varCount) :
    l.toInt ∈ (List.range m.varCount).map (fun var => (m.trueLit var).toInt) ↔
      l.isTrue m.toAssignment = true := by
  rw [List.mem_map]
  constructor
  · rintro ⟨var, -, same⟩
    rw [← Lit.toInt_injective same]
    exact m.isTrue_trueLit var
  · exact fun held => ⟨l.var, List.mem_range.mpr inRange, by rw [eq_trueLit held]⟩

end Model

namespace Trail
variable {t : Trail}

namespace Coherent

/-- The model reported has a value for every variable and agrees with the trail. -/
theorem total?_eq (coherent : t.Coherent) (complete : ∀ var < t.varCount, ∃ a ∈ t.stack, a.var = var) :
    ∃ values, t.total? = some values ∧ values.size = t.varCount ∧
      AgreesWith (Model.mk values).toAssignment t.stack := by
  refine ⟨_, if_pos (coherent.allAssigned_iff.mpr complete), by simp [Trail.varCount], ?_⟩
  intro a member
  obtain ⟨place, found⟩ := Trail.mem_stack_iff.mp member
  obtain ⟨inBounds, value⟩ := Array.getElem?_eq_some_iff.mp (coherent.placed found).1
  simp only [Model.toAssignment, Array.getD_eq_getD_getElem?, Array.getElem?_map,
    Array.getElem?_eq_getElem inBounds, value, Option.map_some, Option.getD_some]
  cases a.value <;> rfl

/-- The model that is checked agrees with the trail. -/
theorem modelOfEntries_agrees (coherent : t.Coherent) :
    (Solver.modelOfEntries t).varCount = t.varCount ∧
      AgreesWith (Solver.modelOfEntries t).toAssignment t.stack := by
  have listed : ∀ {a : Assignment}, a ∈ t.entries.toList ↔ a ∈ t.stack := by
    simp [Trail.stack]
  have values : (Solver.modelOfEntries t).values =
      fill Assignment.var Assignment.value t.entries.toList (Array.replicate t.varCount false) := rfl
  refine ⟨by rw [Model.varCount, values, size_fill, Array.size_replicate], ?_⟩
  intro a member
  have agrees : ∀ b ∈ t.entries.toList, b.var = a.var → b.value = a.value := by
    intro b member' same
    rw [coherent.stacked.eq_of_var_eq (listed.mp member') member same]
  have inBounds : a.var < (Array.replicate t.varCount false).size := by
    simpa using coherent.var_lt member
  have value := getElem?_fill_of_present ⟨a, listed.mpr member, rfl⟩ agrees inBounds
  simp [Model.toAssignment, values, Array.getD_eq_getD_getElem?, value]

end Coherent

/-- Once every variable of a trail in use is assigned, the model that is checked is the one reported. It
makes a literal true exactly if the literal holds on the trail, and that is seen as well in the line of the
model and in the value of the variable counted from one. -/
theorem models_agree {vars : Nat} (inUse : InUse vars t) (small : vars ≤ 2 ^ 31)
    (complete : ∀ var < vars, t.HasValue var) :
    ∃ m ints, Solver.modelOfEntries t = m ∧ t.total?.map Model.mk = some m ∧
      (∀ {σ : Type} (s : Solver σ), s.work.trail = t → s.status = some .sat → s.model = some m) ∧
      m.toInts = .ok ints ∧
      ∀ l : Lit, l.var < vars → ∃ held, m.litValue l = .ok held ∧
        (held = true ↔ t.valueOf l = .ok .holds) ∧
        (held = true ↔ l.toInt ∈ ints) ∧
        (held = true ↔ m.valueOfId? (l.var + 1) = some (!l.negative)) := by
  obtain ⟨coherent, rfl⟩ := inUse.coherent
  have assigned : ∀ var < t.varCount, ∃ a ∈ t.stack, a.var = var := fun var inRange =>
    hasValue_iff.mp (complete var inRange)
  obtain ⟨values, total, size, agrees⟩ := coherent.total?_eq assigned
  obtain ⟨size', agrees'⟩ := coherent.modelOfEntries_agrees
  have count : (Model.mk values).varCount = t.varCount := size
  have same := Model.eq_of_agrees (size'.trans count.symm) (size' ▸ assigned) agrees' agrees
  refine ⟨⟨values⟩, _, same, by rw [total, Option.map_some], ?_, Model.toInts_eq (count ▸ small), ?_⟩
  · rintro σ s rfl sat
    rw [Solver.model, sat, total]
    rfl
  · intro l inRange
    have inModel : l.var < (Model.mk values).varCount := count ▸ inRange
    refine ⟨_, Model.litValue_eq inModel, ?_, (Model.toInt_mem_trueLits_iff inModel).symm, ?_⟩
    · rw [coherent.valueOf_eq inRange, Except.ok.injEq, coherent.stacked.truthOn_eq_holds_iff]
      exact agrees.isTrue_iff (assigned l.var inRange)
    · rw [Model.valueOfId?_succ inModel, Option.some.injEq, Lit.isTrue, bne_iff_ne, Bool.eq_not]

/-- A variable that was true before a return is false after it, and the first one was assigned last. -/
theorem models_agree_reassigned : ∃ (t : Trail) (m : Model) (ints : List Int), InUse 3 t ∧
    (3 : Nat) ≤ 2 ^ 31 ∧ (∀ var < 3, t.HasValue var) ∧ Solver.modelOfEntries t = m ∧
    t.total?.map Model.mk = some m ∧ m.values = #[true, false, true] ∧ m.toInts = .ok ints ∧
    m.litValue ⟨1, true⟩ = .ok true ∧ t.valueOf ⟨1, true⟩ = .ok .holds ∧
      Lit.toInt ⟨1, true⟩ ∈ ints ∧ m.valueOfId? 2 = some false := by
  obtain ⟨t, inUse, complete, values⟩ : ∃ t : Trail, InUse 3 t ∧ (∀ var < 3, t.HasValue var) ∧
      (Solver.modelOfEntries t).values = #[true, false, true] := by
    have start : InUse 3 (.empty 3) := .empty
    have raised := (start.choose ⟨2, false⟩ rfl).choose ⟨1, false⟩ rfl
    have again := ((raised.backTo 1).imply ⟨1, true⟩ 4 rfl).choose ⟨0, false⟩ rfl
    refine ⟨_, again, ?_, by decide +kernel⟩
    unfold HasValue
    decide +kernel
  have small : (3 : Nat) ≤ 2 ^ 31 := by decide
  obtain ⟨m, ints, rfl, total, -, line, literal⟩ := models_agree inUse small complete
  obtain ⟨held, made, holds, inLine, value⟩ := literal ⟨1, true⟩ (by decide)
  have named : (Solver.modelOfEntries t).valueOfId? 2 = some false := by
    rw [Model.valueOfId?, values]
    rfl
  obtain rfl : held = true := value.mpr named
  exact ⟨t, _, ints, inUse, small, complete, rfl, total, values, line, made, holds.mp rfl, inLine.mp rfl,
    named⟩

end Trail

end ClauseLearning
