import ClauseLearning.Dimacs.Reader
import ClauseLearning.Proofs.Input.Acceptance

/-! # Formulas as they can be built

A formula starts without clauses over a declared number of variables and has clauses of signed integers
added, or is made from a list of clauses, or read from lines of text. All of these come down to adding
clauses one by one. Since a clause with a variable beyond the declared number is refused, the literals
of a formula built in any of these ways stay within its variables.
-/

namespace ClauseLearning

/-- The formula was begun without clauses, extended by a clause, made from a list of clauses, or read
from lines. -/
inductive Formula.Built : Formula → Prop
  | new (vars : Nat) : Built ⟨vars, #[]⟩
  | add {f f' : Formula} {clause : List Int} : Built f → f.addClause clause = .ok (.ok f') → Built f'
  | given {f : Formula} {clauses : List (List Int)} :
      Formula.ofClauses clauses = .ok (.ok f) → Built f
  | read {f : Formula} {lines : List (Except ReadFailure (List Char))} {warnings : List Dimacs.Warning} :
      Dimacs.read lines = .ok (.ok f, warnings) → Built f

inductive Formula.Grown : Formula → Prop
  | new (vars : Nat) : Grown ⟨vars, #[]⟩
  | add {f f' : Formula} {clause : List Int} : Grown f → f.addClause clause = .ok (.ok f') → Grown f'

namespace Formula
variable {f f' : Formula} {vars : Nat} {x : Int}

/-- An integer that fits stands for a literal of one of the variables. -/
theorem Fits.var_lt (fits : Fits vars x) : (Lit.ofNonzero x).var < vars := by
  obtain ⟨⟨nonzero, within⟩, -⟩ := fits
  simp only [Lit.ofNonzero]
  omega

/-- The literals of a formula stand for integers that fit. -/
theorem Grown.fits (grown : f.Grown) :
    ∀ lits ∈ f.clauses.toList, ∀ l ∈ lits, ∃ x, Fits f.varCount x ∧ Lit.ofNonzero x = l := by
  induction grown with
  | new vars => simp
  | @add f f' clause grown added ih =>
    obtain ⟨fits, rfl⟩ := addClause_eq_ok_iff.mp added
    intro lits member
    simp only [Array.toList_push, List.mem_append, List.mem_singleton] at member
    rcases member with member | rfl
    · exact ih lits member
    · intro l inside
      obtain ⟨x, given, same⟩ := List.mem_map.mp inside
      exact ⟨x, fits x given, same⟩

/-- The literals of a formula stay within its variables. -/
theorem Grown.inRange (grown : f.Grown) : ∀ lits ∈ f.clauses.toList, ∀ l ∈ lits, l.var < f.varCount := by
  intro lits member l inside
  obtain ⟨x, fits, rfl⟩ := grown.fits lits member l inside
  exact fits.var_lt

theorem Grown.addClauses (grown : f.Grown) {clauses : List (List Int)}
    (added : f.addClauses clauses = .ok (.ok f')) : f'.Grown := by
  induction clauses generalizing f with
  | nil =>
    cases added
    exact grown
  | cons clause rest ih =>
    obtain ⟨outcome, first, result⟩ := Checked.bind_eq_ok_iff.mp added
    cases outcome with
    | error e => cases result
    | ok middle => exact ih (grown.add first) result

/-- Clauses may be given all at once. -/
theorem grown_of_ofClauses {clauses : List (List Int)} (given : ofClauses clauses = .ok (.ok f)) :
    f.Grown := (Grown.new _).addClauses given

end Formula

namespace Dimacs
variable {f f' : Formula} {line : Nat}

/-- A formula begun while reading is one that can be grown. -/
def Progress.Sane (progress : Progress) : Prop := ∀ f, progress.formula = some f → f.Grown

theorem grown_of_readWords {words : List (List Char)} {unclosed unclosed' : List Int} (grown : f.Grown)
    (read : readWords line words f unclosed = .ok (.ok (f', unclosed'))) : f'.Grown := by
  induction words generalizing f unclosed with
  | nil =>
    cases read
    exact grown
  | cons word rest ih =>
    simp only [readWords] at read
    split at read
    · cases read
    · split at read
      · obtain ⟨outcome, added, result⟩ := Checked.bind_eq_ok_iff.mp read
        cases outcome with
        | error e => cases result
        | ok middle => exact ih (grown.add added) result
      · exact ih grown read

/-- What a line adds keeps the formula one that can be grown. -/
theorem sane_of_readLine {chars : List Char} {progress progress' : Progress} (sane : progress.Sane)
    (read : readLine line chars progress = .ok (.more progress') ∨
      readLine line chars progress = .ok (.last progress')) : progress'.Sane := by
  simp only [readLine] at read
  split at read
  · rcases read with read | read <;> cases read
    exact sane
  · rcases read with read | read <;> cases read
    exact sane
  · rcases read with read | read <;> cases read
    exact sane
  · rcases read with read | read <;> cases read
  · split at read
    · rcases read with read | read <;> cases read
    · rcases read with read | read <;> cases read
      rintro f ⟨⟩
      exact .new _
  · rcases read with read | read <;> cases read
  · rename_i f begun _ _ _ _
    have grown := sane f begun
    -- Only a line that goes on gets here, and it hands on what its words have given.
    rcases read with read | read
    · obtain ⟨outcome, words, result⟩ := Checked.bind_eq_ok_iff.mp read
      match outcome, result with
      | .ok (f', unclosed), result =>
        cases result
        rintro _ ⟨⟩
        exact grown_of_readWords grown words
    · obtain ⟨outcome, words, result⟩ := Checked.bind_eq_ok_iff.mp read
      match outcome, result with
      | .ok (f', unclosed), result => cases result

theorem sane_of_readLines {lines : List (Except ReadFailure (List Char))} {number number' : Nat}
    {progress progress' : Progress} (sane : progress.Sane)
    (read : readLines lines number progress = .ok (.ok (number', progress'))) : progress'.Sane := by
  induction lines generalizing number progress with
  | nil =>
    cases read
    exact sane
  | cons line rest ih =>
    cases line with
    | error failure => cases read
    | ok chars =>
      obtain ⟨result, first, next⟩ := Checked.bind_eq_ok_iff.mp read
      cases result with
      | more middle => exact ih (sane_of_readLine sane (.inl first)) next
      | last final =>
        cases next
        exact sane_of_readLine sane (.inr first)
      | failed e => cases next

/-- A formula that is read is one that can be grown. -/
theorem grown_of_read {lines : List (Except ReadFailure (List Char))} {warnings : List Warning}
    (given : read lines = .ok (.ok f, warnings)) : f.Grown := by
  obtain ⟨outcome, lines, result⟩ := Checked.bind_eq_ok_iff.mp given
  match outcome, result with
  | .ok (number, progress), result =>
    have sane : progress.Sane := sane_of_readLines (by rintro f ⟨⟩) lines
    simp only [finish] at result
    split at result
    · cases result
    rename_i f' begun
    have grown := sane f' begun
    split at result
    · cases result
      exact grown
    · obtain ⟨closed, added, result⟩ := Checked.bind_eq_ok_iff.mp result
      cases closed with
      | error e => cases result
      | ok last =>
        cases result
        exact grown.add added

end Dimacs

namespace Formula.Built
variable {f : Formula}

/-- However a formula is built, its clauses are added one by one. -/
theorem grown (built : f.Built) : f.Grown := by
  induction built with
  | new vars => exact .new vars
  | add _ added ih => exact ih.add added
  | given given => exact grown_of_ofClauses given
  | read read => exact Dimacs.grown_of_read read

/-- The literals of a formula stay within its variables. -/
theorem inRange (built : f.Built) : ∀ lits ∈ f.clauses.toList, ∀ l ∈ lits, l.var < f.varCount :=
  built.grown.inRange

end Formula.Built

end ClauseLearning
