import ClauseLearning.Formula
import ClauseLearning.Proofs.Checked
import Mathlib.Algebra.Group.Nat.Defs
import Mathlib.Data.List.Basic

/-! # Which clauses a formula accepts

An integer fits a formula if it stands for a literal over the variables that has a code. A clause whose
integers all fit is accepted, and it is kept integer by integer. Of any other clause only the first
integer that does not fit matters: it is the reason for a refusal, or else one of those whose variable
is counted in 32 bits though its literals are not. Formulas of up to 2 ^ 31 variables never meet the
latter.
-/

namespace ClauseLearning

/-- The outcome is a value exactly under a condition, and a good value then. -/
def Accepts {ε α : Type} (outcome : Except ε α) (condition : Prop) (Good : α → Prop) : Prop :=
  match outcome with
  | .ok value => condition ∧ Good value
  | .error _ => ¬ condition

theorem accepts_ok_iff {ε α : Type} {condition : Prop} {Good : α → Prop} {value : α} :
    Accepts (.ok value : Except ε α) condition Good ↔ condition ∧ Good value := Iff.rfl

namespace Lit
variable {x : Int}

/-- Signed integers tell literals apart. -/
theorem toInt_injective : Function.Injective toInt := by
  rintro ⟨var, sign⟩ ⟨var', sign'⟩ same
  simp only [toInt] at same
  cases sign <;> cases sign' <;> simp only [Bool.false_eq_true, if_true, if_false] at same
  · obtain rfl : var = var' := by omega
    rfl
  · omega
  · omega
  · obtain rfl : var = var' := by omega
    rfl

theorem toInt_ne_zero (l : Lit) : l.toInt ≠ 0 := by
  rw [toInt]
  split <;> omega

theorem natAbs_toInt (l : Lit) : l.toInt.natAbs = l.var + 1 := by
  rw [toInt]
  split <;> omega

/-- The literal that a nonzero integer stands for, whether or not it has a code. -/
def ofNonzero (x : Int) : Lit := ⟨x.natAbs - 1, x < 0⟩

theorem toInt_ofNonzero (nonzero : x ≠ 0) : (ofNonzero x).toInt = x := by
  simp only [ofNonzero, toInt, decide_eq_true_eq]
  split <;> omega

theorem ofNonzero_toInt (l : Lit) : ofNonzero l.toInt = l :=
  toInt_injective (toInt_ofNonzero l.toInt_ne_zero)

/-- The variable of the integer is counted in 32 bits, but the codes of its literals are not. -/
def Codeless (x : Int) : Prop := 2 ^ 31 < x.natAbs ∧ x.natAbs ≤ 2 ^ 32

instance (x : Int) : Decidable (Codeless x) := inferInstanceAs (Decidable (_ ∧ _))

/-- Up to 2 ^ 31 variables have literals. -/
theorem ofInt?_of_le (nonzero : x ≠ 0) (moderate : x.natAbs ≤ 2 ^ 31) :
    ofInt? x = .ok (some (ofNonzero x)) := by
  have limit : varLimit = 2 ^ 32 := rfl
  have codes : codeLimit = 2 ^ 32 := rfl
  have sign : (decide (x < 0)).toNat ≤ 1 := Bool.toNat_le _
  rw [ofInt?, if_neg nonzero, if_pos (by omega), ofVar, if_pos (by omega)]
  rfl

theorem ofInt?_of_codeless (codeless : Codeless x) : ofInt? x = .error .literalOverflow := by
  obtain ⟨above, below⟩ := codeless
  have limit : varLimit = 2 ^ 32 := rfl
  have codes : codeLimit = 2 ^ 32 := rfl
  rw [ofInt?, if_neg (by omega), if_pos (by omega), ofVar, if_neg (by omega)]
  rfl

theorem ofInt?_of_lt (beyond : 2 ^ 32 < x.natAbs) : ofInt? x = .ok none := by
  have limit : varLimit = 2 ^ 32 := rfl
  rw [ofInt?, if_neg (by omega), if_neg (by omega)]

end Lit

namespace Formula
variable {f f' : Formula} {vars : Nat} {x : Int} {clause : List Int}

/-- A formula is determined by its number of variables and its clauses as signed integers. -/
theorem ext_toInts (vars : f.varCount = f'.varCount) (clauses : f.toInts = f'.toInts) : f = f' := by
  have same : f.clauses.toList = f'.clauses.toList :=
    List.map_injective_iff.mpr (List.map_injective_iff.mpr Lit.toInt_injective) clauses
  cases f
  cases f'
  cases vars
  cases Array.toList_inj.mp same
  rfl

theorem map_toInt_ofNonzero (nonzero : 0 ∉ clause) : (clause.map Lit.ofNonzero).map Lit.toInt = clause := by
  rw [List.map_map]
  refine (List.map_congr_left fun x inside => ?_).trans (List.map_id clause)
  exact Lit.toInt_ofNonzero (ne_of_mem_of_not_mem inside nonzero)

/-- Any clauses without zeros are those of a formula. -/
theorem exists_toInts (vars : Nat) (clauses : List (List Int))
    (nonzero : ∀ clause ∈ clauses, 0 ∉ clause) : ∃ f : Formula, f.varCount = vars ∧ f.toInts = clauses := by
  refine ⟨⟨vars, (clauses.map (List.map Lit.ofNonzero)).toArray⟩, rfl, ?_⟩
  simp only [toInts, List.map_map]
  refine (List.map_congr_left fun clause member => ?_).trans (List.map_id clauses)
  exact map_toInt_ofNonzero (nonzero clause member)

/-! ## Integers that fit -/

/-- The integer stands for a literal over the given number of variables. -/
def Admits (vars : Nat) (x : Int) : Prop := x ≠ 0 ∧ x.natAbs ≤ vars

instance (vars : Nat) (x : Int) : Decidable (Admits vars x) := inferInstanceAs (Decidable (_ ∧ _))

/-- The integer stands for a literal over the given number of variables, and the literal has a code. -/
def Fits (vars : Nat) (x : Int) : Prop := Admits vars x ∧ x.natAbs ≤ 2 ^ 31

instance (vars : Nat) (x : Int) : Decidable (Fits vars x) := inferInstanceAs (Decidable (_ ∧ _))

theorem fits_iff_admits (moderate : vars ≤ 2 ^ 31) : Fits vars x ↔ Admits vars x :=
  ⟨And.left, fun admitted => ⟨admitted, Nat.le_trans admitted.2 moderate⟩⟩

/-- The integer of a literal within the variables fits. -/
theorem fits_toInt {l : Lit} (moderate : vars ≤ 2 ^ 31) (within : l.var < vars) : Fits vars l.toInt := by
  have size := l.natAbs_toInt
  exact ⟨⟨l.toInt_ne_zero, by omega⟩, by omega⟩

/-- The first integer that does not fit. -/
def misfit? (vars : Nat) (ints : List Int) : Option Int := ints.find? fun x => ¬ Fits vars x

theorem misfit?_eq_none_iff : misfit? vars clause = none ↔ ∀ x ∈ clause, Fits vars x := by
  simp [misfit?]

theorem not_fits_of_misfit? (first : misfit? vars clause = some x) : ¬ Fits vars x := by
  simpa using List.find?_some first

/-- An integer of a kind that does not fit is the first misfit if all integers before it fit. -/
theorem exists_misfit?_iff {kind : Int → Prop} (misfits : ∀ x, kind x → ¬ Fits vars x) :
    (∃ x, misfit? vars clause = some x ∧ kind x) ↔
      ∃ front x back, clause = front ++ x :: back ∧ (∀ y ∈ front, Fits vars y) ∧ kind x := by
  simp only [misfit?, List.find?_eq_some_iff_append]
  constructor
  · rintro ⟨x, ⟨-, front, back, rfl, fits⟩, isKind⟩
    exact ⟨front, x, back, rfl, by simpa using fits, isKind⟩
  · rintro ⟨front, x, back, rfl, fits, isKind⟩
    exact ⟨x, ⟨by simpa using misfits x isKind, front, back, rfl, by simpa using fits⟩, isKind⟩

/-- An integer that does not fit is refused for a reason, unless its variable has no literals. -/
def refusal (vars : Nat) (x : Int) : Checked InputError :=
  if x = 0 then .ok .zeroLiteral
  else if Lit.Codeless x ∧ x.natAbs ≤ vars then .error .literalOverflow
  else .ok (.variableOutOfRange x.natAbs vars)

theorem refusal_eq_error_iff {fault : Fault} :
    refusal vars x = .error fault ↔ fault = .literalOverflow ∧ Lit.Codeless x ∧ x.natAbs ≤ vars := by
  simp only [refusal]
  split
  · rename_i zero
    subst zero
    simp [Lit.Codeless]
  · split
    · rename_i overflow
      simp [overflow, eq_comm]
    · rename_i safe
      simp [safe]

theorem refusal_eq_variableOutOfRange_iff {var vars' : Nat} :
    refusal vars x = .ok (.variableOutOfRange var vars') ↔
      x ≠ 0 ∧ ¬ (Lit.Codeless x ∧ x.natAbs ≤ vars) ∧ x.natAbs = var ∧ vars = vars' := by
  simp only [refusal]
  split
  · simp [*]
  · split <;> simp [*]

theorem readLit_of_fits (fits : Fits vars x) : readLit vars x = .ok (.ok (Lit.ofNonzero x)) := by
  obtain ⟨⟨nonzero, within⟩, moderate⟩ := fits
  simp only [readLit, if_neg nonzero, if_neg (by omega : ¬ vars < x.natAbs),
    Lit.ofInt?_of_le nonzero moderate]
  rfl

theorem readLit_of_not_fits (misfit : ¬ Fits vars x) :
    readLit vars x = (refusal vars x).map .error := by
  by_cases zero : x = 0
  · simp only [readLit, refusal, if_pos zero]
    rfl
  by_cases beyond : vars < x.natAbs
  · have safe : ¬ (Lit.Codeless x ∧ x.natAbs ≤ vars) := fun overflow => by omega
    simp only [readLit, refusal, if_neg zero, if_pos beyond, if_neg safe]
    rfl
  have large : 2 ^ 31 < x.natAbs := by
    by_contra moderate
    exact misfit ⟨⟨zero, by omega⟩, by omega⟩
  by_cases wide : x.natAbs ≤ 2 ^ 32
  · have codeless : Lit.Codeless x := ⟨large, wide⟩
    simp only [readLit, refusal, if_neg zero, if_neg beyond, Lit.ofInt?_of_codeless codeless]
    rw [if_pos ⟨codeless, by omega⟩]
    rfl
  · have safe : ¬ (Lit.Codeless x ∧ x.natAbs ≤ vars) := fun overflow => wide overflow.1.2
    simp only [readLit, refusal, if_neg zero, if_neg beyond, if_neg safe,
      Lit.ofInt?_of_lt (by omega : 2 ^ 32 < x.natAbs)]
    rfl

theorem readLits_of_fits (fits : ∀ x ∈ clause, Fits vars x) :
    readLits vars clause = .ok (.ok (clause.map Lit.ofNonzero)) := by
  induction clause with
  | nil => rfl
  | cons x rest ih =>
    obtain ⟨here, later⟩ := List.forall_mem_cons.mp fits
    simp only [readLits, readLit_of_fits here, ih later, ok_bind]
    rfl

theorem readLits_of_misfit (first : misfit? vars clause = some x) :
    readLits vars clause = (refusal vars x).map .error := by
  induction clause with
  | nil => cases first
  | cons y rest ih =>
    by_cases fits : Fits vars y
    · have later : misfit? vars rest = some x := by simpa [misfit?, fits] using first
      simp only [readLits, readLit_of_fits fits, ih later, ok_bind]
      cases refusal vars x <;> rfl
    · obtain rfl : y = x := by simpa [misfit?, fits] using first
      simp only [readLits, readLit_of_not_fits fits]
      cases refusal vars y <;> rfl

/-! ## Clauses -/

/-- A clause that fits becomes the last one. -/
theorem offer_of_fits (fits : ∀ x ∈ clause, Fits f.varCount x) : f.offer clause =
    .ok (none, { f with clauses := f.clauses.push (clause.map Lit.ofNonzero) }) := by
  rw [offer, readLits_of_fits fits]
  rfl

/-- Otherwise the first integer that does not fit decides, and the formula stays as it is. -/
theorem offer_of_misfit (first : misfit? f.varCount clause = some x) :
    f.offer clause = (refusal f.varCount x).map fun reason => (some reason, f) := by
  rw [offer, readLits_of_misfit first]
  cases refusal f.varCount x <;> rfl

theorem addClause_of_fits (fits : ∀ x ∈ clause, Fits f.varCount x) :
    f.addClause clause = .ok (.ok { f with clauses := f.clauses.push (clause.map Lit.ofNonzero) }) := by
  rw [addClause, offer_of_fits fits]
  rfl

theorem addClause_of_misfit (first : misfit? f.varCount clause = some x) :
    f.addClause clause = (refusal f.varCount x).map .error := by
  rw [addClause, offer_of_misfit first]
  cases refusal f.varCount x <;> rfl

/-- How adding integers ends: as the first one that does not fit decides, or else with a formula. -/
inductive Adds (vars : Nat) : Option Int → Checked (Except InputError Formula) → Prop
  | misfit (x : Int) : Adds vars (some x) ((refusal vars x).map .error)
  | fits (f : Formula) : Adds vars none (.ok (.ok f))

theorem addClause_adds (f : Formula) (clause : List Int) :
    Adds f.varCount (misfit? f.varCount clause) (f.addClause clause) := by
  cases first : misfit? f.varCount clause with
  | none =>
    rw [addClause_of_fits (misfit?_eq_none_iff.mp first)]
    exact .fits _
  | some x =>
    rw [addClause_of_misfit first]
    exact .misfit x

/-- Clauses added in turn end like the one clause of all their integers. -/
theorem addClauses_adds (f : Formula) (clauses : List (List Int)) :
    Adds f.varCount (misfit? f.varCount clauses.flatten) (f.addClauses clauses) := by
  induction clauses generalizing f with
  | nil => exact .fits f
  | cons clause rest ih =>
    have split : misfit? f.varCount (clause :: rest).flatten =
        (misfit? f.varCount clause).or (misfit? f.varCount rest.flatten) := List.find?_append
    cases first : misfit? f.varCount clause with
    | none =>
      rw [split, first, addClauses, addClause_of_fits (misfit?_eq_none_iff.mp first)]
      exact ih { f with clauses := f.clauses.push _ }
    | some x =>
      have same : f.addClauses (clause :: rest) = (refusal f.varCount x).map .error := by
        rw [addClauses, addClause_of_misfit first]
        cases refusal f.varCount x <;> rfl
      rw [split, first, same]
      exact .misfit x

namespace Adds
variable {first : Option Int} {outcome : Checked (Except InputError Formula)}

theorem eq_error_iff {fault : Fault} (adds : Adds vars first outcome) :
    outcome = .error fault ↔ ∃ x, first = some x ∧ refusal vars x = .error fault := by
  cases adds with
  | misfit x => cases refused : refusal vars x <;> simp [Except.map, refused]
  | fits f => simp

theorem refuses_iff {reason : InputError} (adds : Adds vars first outcome) :
    outcome = .ok (.error reason) ↔ ∃ x, first = some x ∧ refusal vars x = .ok reason := by
  cases adds with
  | misfit x => cases refused : refusal vars x <;> simp [Except.map, refused]
  | fits f => simp

end Adds

/-- Nothing else is accepted. -/
theorem addClause_eq_ok_iff : f.addClause clause = .ok (.ok f') ↔
    (∀ x ∈ clause, Fits f.varCount x) ∧
      f' = { f with clauses := f.clauses.push (clause.map Lit.ofNonzero) } := by
  constructor
  · intro added
    cases first : misfit? f.varCount clause with
    | none =>
      have fits := misfit?_eq_none_iff.mp first
      cases (addClause_of_fits fits).symm.trans added
      exact ⟨fits, rfl⟩
    | some x =>
      rw [addClause_of_misfit first] at added
      cases refused : refusal f.varCount x <;> rw [refused] at added <;> cases added
  · rintro ⟨fits, rfl⟩
    exact addClause_of_fits fits

theorem toInts_push (nonzero : 0 ∉ clause) :
    toInts { f with clauses := f.clauses.push (clause.map Lit.ofNonzero) } = f.toInts ++ [clause] := by
  simp only [toInts, Array.toList_push, List.map_append, List.map_cons, List.map_nil,
    map_toInt_ofNonzero nonzero]

/-- A clause is accepted exactly if its integers stand for literals, and it becomes the last one. -/
theorem addClause_accepts (moderate : f.varCount ≤ 2 ^ 31) (clause : List Int) :
    Yields (f.addClause clause) fun outcome =>
      Accepts outcome (∀ x ∈ clause, Admits f.varCount x) fun f' =>
        f'.varCount = f.varCount ∧ f'.toInts = f.toInts ++ [clause] := by
  simp only [← fits_iff_admits moderate]
  cases first : misfit? f.varCount clause with
  | none =>
    have fits := misfit?_eq_none_iff.mp first
    refine .intro (addClause_of_fits fits) ⟨fits, rfl, toInts_push fun member => ?_⟩
    exact (fits 0 member).1.1 rfl
  | some x =>
    have misfit : ¬ ∀ x ∈ clause, Fits f.varCount x := by
      rw [← misfit?_eq_none_iff, first]
      exact nofun
    rw [addClause_of_misfit first]
    cases refused : refusal f.varCount x with
    | error fault =>
      obtain ⟨-, ⟨large, -⟩, within⟩ := refusal_eq_error_iff.mp refused
      omega
    | ok reason => exact .intro rfl misfit

end Formula

end ClauseLearning
