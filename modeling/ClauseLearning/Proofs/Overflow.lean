import ClauseLearning.Proofs.Input.Filling

/-! # Which input faults

An integer stands for a literal if its magnitude is at most 2 ^ 31, and for none if it is zero or of a
magnitude above 2 ^ 32. Between the two its variable is counted in 32 bits, but the literals of the
variable have no codes, and reading the integer faults. A formula meets such an integer only if it has
that many variables, and if it comes to the integer before it comes to anything it refuses.
-/

namespace ClauseLearning

namespace Lit
variable {x : Int}

/-- What reading an integer comes to, by its magnitude. -/
inductive Reads (x : Int) : Checked (Option Lit) → Prop
  | literal (nonzero : x ≠ 0) (moderate : x.natAbs ≤ 2 ^ 31) : Reads x (.ok (some (ofNonzero x)))
  | codeless (codeless : Codeless x) : Reads x (.error .literalOverflow)
  | none (outside : x = 0 ∨ 2 ^ 32 < x.natAbs) : Reads x (.ok none)

theorem ofInt?_reads (x : Int) : Reads x (ofInt? x) := by
  by_cases zero : x = 0
  · subst zero
    exact .none (.inl rfl)
  by_cases moderate : x.natAbs ≤ 2 ^ 31
  · rw [ofInt?_of_le zero moderate]
    exact .literal zero moderate
  by_cases wide : x.natAbs ≤ 2 ^ 32
  · have codeless : Codeless x := ⟨by omega, wide⟩
    rw [ofInt?_of_codeless codeless]
    exact .codeless codeless
  · have beyond : 2 ^ 32 < x.natAbs := by omega
    rw [ofInt?_of_lt beyond]
    exact .none (.inr beyond)

theorem ofInt?_eq_some_iff {l : Lit} :
    ofInt? x = .ok (some l) ↔ l.toInt = x ∧ x.natAbs ≤ 2 ^ 31 := by
  constructor
  · intro read
    have reads := ofInt?_reads x
    rw [read] at reads
    cases reads with
    | literal nonzero moderate => exact ⟨toInt_ofNonzero nonzero, moderate⟩
  · rintro ⟨rfl, moderate⟩
    rw [ofInt?_of_le l.toInt_ne_zero moderate, ofNonzero_toInt]

theorem ofInt?_eq_none_iff : ofInt? x = .ok none ↔ x = 0 ∨ 2 ^ 32 < x.natAbs := by
  constructor
  · intro read
    have reads := ofInt?_reads x
    rw [read] at reads
    cases reads with
    | none outside => exact outside
  · rintro (rfl | beyond)
    · rfl
    · exact ofInt?_of_lt beyond

theorem ofInt?_eq_error_iff {fault : Fault} :
    ofInt? x = .error fault ↔ fault = .literalOverflow ∧ Codeless x := by
  constructor
  · intro read
    have reads := ofInt?_reads x
    rw [read] at reads
    cases reads with
    | codeless codeless => exact ⟨rfl, codeless⟩
  · rintro ⟨rfl, codeless⟩
    exact ofInt?_of_codeless codeless

end Lit

namespace Formula
variable {f : Formula} {vars : Nat} {ints : List Int} {fault : Fault}

/-- The first integer that does not fit is within the variables, but has no literal. -/
def Overflows (vars : Nat) (ints : List Int) : Prop :=
  ∃ front x back, ints = front ++ x :: back ∧ (∀ y ∈ front, Fits vars y) ∧ Lit.Codeless x ∧
    x.natAbs ≤ vars

theorem overflows_iff : Overflows vars ints ↔
    ∃ x, misfit? vars ints = some x ∧ Lit.Codeless x ∧ x.natAbs ≤ vars :=
  (exists_misfit?_iff fun _ overflow fits => absurd fits.2 (Nat.not_le.mpr overflow.1.1)).symm

theorem Adds.overflows_iff {outcome : Checked (Except InputError Formula)}
    (adds : Adds vars (misfit? vars ints) outcome) :
    outcome = .error fault ↔ fault = .literalOverflow ∧ Overflows vars ints := by
  simp only [adds.eq_error_iff, refusal_eq_error_iff, Formula.overflows_iff]
  constructor
  · rintro ⟨x, first, overflows, overflow⟩
    exact ⟨overflows, x, first, overflow⟩
  · rintro ⟨overflows, x, first, overflow⟩
    exact ⟨x, first, overflows, overflow⟩

theorem addClause_eq_error_iff :
    f.addClause ints = .error fault ↔ fault = .literalOverflow ∧ Overflows f.varCount ints :=
  (addClause_adds f ints).overflows_iff

/-- Clauses added in turn fault like the one clause of all their integers. -/
theorem addClauses_eq_error_iff (clauses : List (List Int)) : f.addClauses clauses = .error fault ↔
    fault = .literalOverflow ∧ Overflows f.varCount clauses.flatten :=
  (addClauses_adds f clauses).overflows_iff

end Formula

/-- When input faults: an integer does if its variable is counted in 32 bits but has no literals; a
clause does if the first of its integers that does not fit is such a one, and so do clauses that are
taken together; a text does if it is blocked by such a one. There is no other fault. All other integers
stand for a literal or for none, as their magnitude says. -/
theorem input_faults_iff (x : Int) (f : Formula) (clause : List Int) (lists : List (List Int))
    (text : String) (fault : Fault) :
    ((∀ l, Lit.ofInt? x = .ok (some l) ↔ l.toInt = x ∧ x.natAbs ≤ 2 ^ 31) ∧
      (Lit.ofInt? x = .ok none ↔ x = 0 ∨ 2 ^ 32 < x.natAbs) ∧
      (Lit.ofInt? x = .error fault ↔ fault = .literalOverflow ∧ Lit.Codeless x)) ∧
    (f.addClause clause = .error fault ↔
      fault = .literalOverflow ∧ Formula.Overflows f.varCount clause) ∧
    (Formula.ofClauses lists = .error fault ↔
      fault = .literalOverflow ∧ Formula.Overflows (Formula.largestVar lists) lists.flatten) ∧
    (Dimacs.readText text = .error fault ↔ fault = .literalOverflow ∧
      ∃ c, Dimacs.scan (Dimacs.textLines text.toList) 0 = .ok c ∧
        ∃ p line, Dimacs.Blocks c.vars c.row p line ∧
          Lit.Codeless p.value ∧ p.value.natAbs ≤ c.vars) := by
  refine ⟨⟨fun l => Lit.ofInt?_eq_some_iff, Lit.ofInt?_eq_none_iff, Lit.ofInt?_eq_error_iff⟩,
    Formula.addClause_eq_error_iff, Formula.addClauses_eq_error_iff lists, Dimacs.read_eq_error_iff⟩

/-- The least integer whose variable is counted in 32 bits but has no literals. -/
def leastCodeless : Int := 2147483649

theorem leastCodeless_faults : ¬ ((∃ outcome, Lit.ofInt? leastCodeless = .ok outcome) ∨
    (∃ outcome, Formula.ofClauses [[1], [leastCodeless]] = .ok outcome) ∨
    ∃ outcome, Dimacs.readText "p cnf 2147483649 1\n2147483649 0\n" = .ok outcome) := by
  have integer : Lit.ofInt? leastCodeless = .error .literalOverflow := by decide
  have clauses : Formula.ofClauses [[1], [leastCodeless]] = .error .literalOverflow := by decide
  have text : Dimacs.readText "p cnf 2147483649 1\n2147483649 0\n" = .error .literalOverflow := by
    decide +kernel
  rw [integer, clauses, text]
  rintro (⟨_, ⟨⟩⟩ | ⟨_, ⟨⟩⟩ | ⟨_, ⟨⟩⟩)

end ClauseLearning
