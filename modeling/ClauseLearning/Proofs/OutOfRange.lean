import ClauseLearning.Proofs.RefusedLines
import ClauseLearning.Proofs.Validation

/-! # What reports of variables out of range say

A report says that a variable exceeds a number of variables. The variable is always that of an integer
of the input, and the number is the one of the formula. But there are two reasons for a report: the
variable is beyond the number, or it is not counted in 32 bits, and only for the first one the report
is true. Up to 2 ^ 32 variables there is no other reason. Lists of integers have no variable beyond the
largest one that they mention, so that no report about them is true.
-/

namespace ClauseLearning

namespace Formula

/-- The first integer that does not fit is of the variable, and the variable is beyond the number of
variables or not counted in 32 bits. -/
def Blames (vars : Nat) (ints : List Int) (var : Nat) : Prop :=
  ∃ front x back, ints = front ++ x :: back ∧ (∀ y ∈ front, Fits vars y) ∧ x.natAbs = var ∧
    (vars < var ∨ 2 ^ 32 < var)

section Blames
variable {vars vars' var : Nat} {ints : List Int} {x : Int}

theorem not_fits_of_beyond (beyond : vars < x.natAbs ∨ 2 ^ 32 < x.natAbs) : ¬ Fits vars x := by
  rintro ⟨⟨-, within⟩, moderate⟩
  omega

/-- An integer that does not fit is reported as out of range for one of two reasons. -/
theorem refusal_reports_iff (misfit : ¬ Fits vars x) :
    refusal vars x = .ok (.variableOutOfRange var vars') ↔
      vars' = vars ∧ x.natAbs = var ∧ (vars < var ∨ 2 ^ 32 < var) := by
  rw [refusal_eq_variableOutOfRange_iff]
  constructor
  · rintro ⟨nonzero, safe, rfl, rfl⟩
    refine ⟨rfl, rfl, ?_⟩
    by_contra small
    obtain ⟨within, counted⟩ := not_or.mp small
    have large : ¬ x.natAbs ≤ 2 ^ 31 := fun moderate => misfit ⟨⟨nonzero, by omega⟩, moderate⟩
    exact safe ⟨⟨by omega, by omega⟩, by omega⟩
  · rintro ⟨rfl, rfl, beyond⟩
    refine ⟨by omega, ?_, rfl, rfl⟩
    rintro ⟨⟨-, counted⟩, within⟩
    omega

theorem blames_iff : Blames vars ints var ↔
    ∃ x, misfit? vars ints = some x ∧ x.natAbs = var ∧ (vars < var ∨ 2 ^ 32 < var) := by
  refine (exists_misfit?_iff ?_).symm
  rintro x ⟨rfl, beyond⟩
  exact not_fits_of_beyond beyond

theorem Adds.reports_iff {outcome : Checked (Except InputError Formula)}
    (adds : Adds vars (misfit? vars ints) outcome) :
    outcome = .ok (.error (.variableOutOfRange var vars')) ↔ vars' = vars ∧ Blames vars ints var := by
  rw [adds.refuses_iff, blames_iff]
  constructor
  · rintro ⟨x, first, refused⟩
    obtain ⟨same, blamed⟩ := (refusal_reports_iff (not_fits_of_misfit? first)).mp refused
    exact ⟨same, x, first, blamed⟩
  · rintro ⟨same, x, first, blamed⟩
    exact ⟨x, first, (refusal_reports_iff (not_fits_of_misfit? first)).mpr ⟨same, blamed⟩⟩

theorem Blames.beyond (blames : Blames vars ints var) : vars < var ∨ 2 ^ 32 < var := by
  obtain ⟨-, -, -, -, -, -, beyond⟩ := blames
  exact beyond

/-- Who is to blame in lists is within their largest variable. -/
theorem Blames.le_largestVar {lists : List (List Int)} (blames : Blames vars lists.flatten var) :
    var ≤ largestVar lists := by
  obtain ⟨front, x, back, same, -, rfl, -⟩ := blames
  have member : x ∈ lists.flatten := same ▸ List.mem_append_right _ List.mem_cons_self
  obtain ⟨list, listed, inside⟩ := List.mem_flatten.mp member
  exact (isLargest_largestVar lists).1 list listed x inside

end Blames

end Formula

namespace Dimacs
variable {lines : List (List Char)} {line var vars : Nat}

/-- A report from a text is about the integer that blocks reading. -/
theorem read_reports_iff :
    (∃ warnings, read (lines.map .ok) =
        .ok (.error (.refusedClause line (.variableOutOfRange var vars)), warnings)) ↔
      ∃ c p, scan (lines.map .ok) 0 = .ok c ∧ vars = c.vars ∧ Blocks vars c.row p line ∧
        p.value.natAbs = var ∧ (vars < var ∨ 2 ^ 32 < var) ∧ Mentions lines p.line var := by
  rw [read_refuses_iff]
  constructor
  · rintro ⟨c, scanned, p, blocks, refused⟩
    obtain ⟨rfl, rfl, beyond⟩ := (Formula.refusal_reports_iff blocks.misfit).mp refused
    exact ⟨c, p, scanned, rfl, blocks, rfl, beyond, mentions_of_mem scanned blocks.mem_placed⟩
  · rintro ⟨c, p, scanned, rfl, blocks, same, beyond, -⟩
    exact ⟨c, scanned, p, blocks, (Formula.refusal_reports_iff blocks.misfit).mpr ⟨rfl, same, beyond⟩⟩

end Dimacs

/-- When a variable is reported as out of range. For a clause added to a formula, for lists and for a
text alike, the first integer that does not fit is of that variable, and the variable is beyond the
number reported or not counted in 32 bits. The number is the one of the formula; for lists it is the
largest variable that they mention, which no variable of theirs exceeds; for a text it is the one
declared, and the integer stands on one of its lines. -/
theorem out_of_range_reports_iff (f : Formula) (clause : List Int) (lists : List (List Int))
    (text : String) (line var vars : Nat) :
    (f.addClause clause = .ok (.error (.variableOutOfRange var vars)) ↔
      vars = f.varCount ∧ Formula.Blames vars clause var) ∧
    (Formula.ofClauses lists = .ok (.error (.variableOutOfRange var vars)) ↔
      vars = Formula.largestVar lists ∧ Formula.Blames vars lists.flatten var ∧
        2 ^ 32 < var ∧ var ≤ vars) ∧
    ((∃ warnings, Dimacs.readText text =
        .ok (.error (.refusedClause line (.variableOutOfRange var vars)), warnings)) ↔
      ∃ c p, Dimacs.scan (Dimacs.textLines text.toList) 0 = .ok c ∧ vars = c.vars ∧
        Dimacs.Blocks vars c.row p line ∧ p.value.natAbs = var ∧ (vars < var ∨ 2 ^ 32 < var) ∧
        Dimacs.Mentions (Dimacs.splitLines (· == '\n') text.toList) p.line var) := by
  refine ⟨?_, ?_, Dimacs.read_reports_iff⟩
  · rw [(Formula.addClause_adds f clause).reports_iff]
    exact and_congr_right fun same => by rw [same]
  · have adds : Formula.Adds (Formula.largestVar lists) _ (Formula.ofClauses lists) :=
      Formula.addClauses_adds ⟨Formula.largestVar lists, #[]⟩ lists
    rw [adds.reports_iff]
    constructor
    · rintro ⟨rfl, blames⟩
      have within := blames.le_largestVar
      exact ⟨rfl, blames, blames.beyond.resolve_left (Nat.not_lt.mpr within), within⟩
    · rintro ⟨rfl, blames, -⟩
      exact ⟨rfl, blames⟩

/-- The least integer whose variable is not counted in 32 bits. -/
def leastUncounted : Int := 4294967297

/-- No report about it says the truth where it is within the variables. -/
theorem leastUncounted_misreported :
    ¬ ((∀ var vars, Formula.addClause ⟨4294967297, #[]⟩ [leastUncounted] =
          .ok (.error (.variableOutOfRange var vars)) → vars < var) ∨
      (∀ var vars, Formula.ofClauses [[leastUncounted]] =
          .ok (.error (.variableOutOfRange var vars)) → vars < var) ∨
      ∀ line var vars warnings, Dimacs.readText "p cnf 4294967297 1\n4294967297 0\n" =
          .ok (.error (.refusedClause line (.variableOutOfRange var vars)), warnings) → vars < var) := by
  have clause : Formula.addClause ⟨4294967297, #[]⟩ [leastUncounted] =
      .ok (.error (.variableOutOfRange 4294967297 4294967297)) := by decide
  have lists : Formula.ofClauses [[leastUncounted]] =
      .ok (.error (.variableOutOfRange 4294967297 4294967297)) := by decide
  have text : Dimacs.readText "p cnf 4294967297 1\n4294967297 0\n" =
      .ok (.error (.refusedClause 2 (.variableOutOfRange 4294967297 4294967297)), []) := by
    decide +kernel
  rintro (truthful | truthful | truthful)
  · exact Nat.lt_irrefl _ (truthful _ _ clause)
  · exact Nat.lt_irrefl _ (truthful _ _ lists)
  · exact Nat.lt_irrefl _ (truthful _ _ _ _ text)

end ClauseLearning
