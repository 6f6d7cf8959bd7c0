import ClauseLearning.CommandLine.Program
import ClauseLearning.Proofs.Reading
import ClauseLearning.Proofs.Search.Verdict
import ClauseLearning.Proofs.ValueLine

/-! # What the program prints

The program answers an input that is a formula with the verdict on the formula, and with the line of a
model if one is asked for, whatever the other options are. An input that is none is refused.
-/

namespace ClauseLearning.CommandLine

open Dimacs

/-- The lines of the standard output answer a formula: with the verdict that is right, and with the line
of a model exactly if there is one and it is asked for. -/
structure Answers (options : Options) (f : Formula) (output : List String) : Prop where
  unsat : ¬ f.Satisfiable → output = ["UNSAT"]
  sat : f.Satisfiable → options.model = false → output = ["SAT"]
  model : f.Satisfiable → options.model = true →
    ∃ ints, f.TrueLiterals ints ∧ output = ["SAT", valueLine ints]

section Answers
variable {options options' : Options} {f : Formula} {output output' : List String}

theorem Answers.head?_of_satisfiable (answers : Answers options f output)
    (satisfiable : f.Satisfiable) : output.head? = some "SAT" := by
  cases wanted : options.model with
  | false =>
    rw [answers.sat satisfiable wanted]
    rfl
  | true =>
    obtain ⟨ints, -, rfl⟩ := answers.model satisfiable wanted
    rfl

/-- The first line does not depend on the options. -/
theorem Answers.head?_eq (one : Answers options f output) (other : Answers options' f output') :
    output.head? = output'.head? := by
  by_cases satisfiable : f.Satisfiable
  · rw [one.head?_of_satisfiable satisfiable, other.head?_of_satisfiable satisfiable]
  · rw [one.unsat satisfiable, other.unsat satisfiable]

end Answers

theorem modelLines_none (options : Options) : modelLines options none = .ok [] := by
  unfold modelLines
  split
  · rename_i same
    cases same
  · rfl

theorem modelLines_of_unasked {options : Options} (unasked : options.model = false)
    (model : Option Model) : modelLines options model = .ok [] := by
  simp [modelLines, unasked]
  rfl

theorem modelLines_of_asked {options : Options} {m : Model} {line : String}
    (asked : options.model = true) (printed : m.text = .ok line) :
    modelLines options (some m) = .ok [line] := by
  simp [modelLines, asked, printed]

/-- A solver that has a verdict gives what is to be printed. -/
theorem answers_of_solved {σ : Type} {f : Formula} {verdict : Verdict} {s : Solver σ}
    (solved : s.Solved f verdict) (built : f.Built) (small : f.varCount ≤ 2 ^ 31) (options : Options) :
    Yields (modelLines options s.model) fun lines => Answers options f (verdict.text :: lines) := by
  cases verdict with
  | unsat =>
    have no := solved.unsat rfl
    have model : s.model = none := by rw [Solver.model, solved.status_eq]
    rw [model]
    exact .intro (modelLines_none options)
      ⟨fun _ => rfl, fun yes => absurd yes no, fun yes => absurd yes no⟩
  | sat =>
    obtain ⟨m, model, size, satisfied⟩ := solved.sat rfl
    have yes : f.Satisfiable := ⟨_, satisfied⟩
    rw [model]
    cases wanted : options.model with
    | false =>
      refine .intro (modelLines_of_unasked wanted _)
        ⟨fun no => absurd yes no, fun _ _ => rfl, fun _ asked => ?_⟩
      cases wanted.symm.trans asked
    | true =>
      obtain ⟨line, printed, ints, literals, rfl⟩ :=
        Model.text_yields size small built.inRange satisfied
      refine .intro (modelLines_of_asked wanted printed)
        ⟨fun no => absurd yes no, fun _ unasked => ?_, fun _ _ => ⟨ints, literals, rfl⟩⟩
      cases wanted.symm.trans unasked

theorem decideFormula_yields {f : Formula} (built : f.Built) (small : f.varCount ≤ 2 ^ 31)
    (options : Options) (log : Log) :
    Yields (decideFormula options f log) fun outcome =>
      outcome.code = 0 ∧ Answers options f outcome.output := by
  rw [decideFormula]
  refine (Solver.new_yields built small options.config log).bind fun s fresh => ?_
  refine (fresh.solve_yields small).bind fun ⟨answer, s'⟩ ⟨verdict, same, solved⟩ => ?_
  obtain rfl : answer = .ok verdict := same
  refine (answers_of_solved solved built small options).bind fun lines answers => ?_
  exact .intro rfl ⟨rfl, answers⟩

/-- How a run on an input ends: what is no formula is refused, and a formula is answered. -/
inductive Responds (options : Options) (bytes : List UInt8) : Outcome → Prop
  | refused {outcome : Outcome} (none : ∀ f, ¬ Parses bytes f) (code : outcome.code = 1)
      (silent : outcome.output = []) : Responds options bytes outcome
  | answered {outcome : Outcome} {f : Formula} (parses : Parses bytes f) (code : outcome.code = 0)
      (answers : Answers options f outcome.output) : Responds options bytes outcome

theorem run_responds {bytes : List UInt8} (moderate : Moderate (contentOfBytes bytes))
    (options : Options) : Yields (run options (.ok bytes)) (Responds options bytes) := by
  obtain ⟨⟨parsed, warnings⟩, read, size⟩ := readBytes_yields moderate
  rw [run, readFormula, read, ok_bind]
  cases parsed with
  | error e =>
    refine .intro rfl (.refused ?_ rfl rfl)
    rintro f ⟨warnings', given⟩
    cases read.symm.trans given
  | ok f =>
    exact (decideFormula_yields (.read read) (size f rfl) options _).imp fun outcome ⟨code, answers⟩ =>
      .answered ⟨warnings, read⟩ code answers

/-- A run on an input that announces no more than 2 ^ 31 variables ends without a fault, whatever the
options are. The exit code is zero if the input is a formula, and one if it is none. A formula is
answered: `UNSAT` if it has no model, and `SAT` if it has one, with the line of a model exactly if that
is asked for. The first line is the same for all options. -/
theorem run_answers (bytes : List UInt8) (moderate : Moderate (contentOfBytes bytes))
    (options : Options) :
    ∃ outcome, run options (.ok bytes) = .ok outcome ∧
      ((∃ f, Parses bytes f) ∧ outcome.code = 0 ∨ (¬ ∃ f, Parses bytes f) ∧ outcome.code = 1) ∧
      (∀ f, Parses bytes f → Answers options f outcome.output) ∧
      ∀ options' outcome', run options' (.ok bytes) = .ok outcome' →
        outcome'.output.head? = outcome.output.head? := by
  obtain ⟨outcome, ran, responds⟩ := run_responds moderate options
  refine ⟨outcome, ran, ?_⟩
  cases responds with
  | refused none code silent =>
    refine ⟨.inr ⟨fun ⟨f, parses⟩ => none f parses, code⟩, fun f parses => absurd parses (none f), ?_⟩
    intro options' outcome' ran'
    cases (run_responds moderate options').of_eq ran' with
    | refused _ _ silent' => rw [silent, silent']
    | answered parses => exact absurd parses (none _)
  | answered parses code answers =>
    refine ⟨.inl ⟨⟨_, parses⟩, code⟩, fun f other => other.unique parses ▸ answers, ?_⟩
    intro options' outcome' ran'
    cases (run_responds moderate options').of_eq ran' with
    | refused none => exact absurd parses (none _)
    | answered parses' _ answers' =>
      cases parses'.unique parses
      exact answers'.head?_eq answers

/-- The bytes of a text of two clauses, the second one without its closing zero. -/
def forced : List UInt8 := encode "p cnf 2 2\n1 2 0 -1\n".toList

theorem run_answers_forced : Moderate (contentOfBytes forced) ∧
    ∃ f outcome, Parses forced f ∧ f.toInts = [[1, 2], [-1]] ∧
      run { model := true, rescan := true, decayInterval := some 0 } (.ok forced) = .ok outcome ∧
      outcome.code = 0 ∧ outcome.output = ["SAT", "v -1 2 0"] ∧
      Answers { model := true, rescan := true, decayInterval := some 0 } f outcome.output ∧
      ∀ options outcome', run options (.ok forced) = .ok outcome' →
        outcome'.output.head? = some "SAT" := by
  have announces : Announces "p cnf 2 2".toList 2 2 := header?_eq_some_iff.mp (by decide +kernel)
  have moderate : Moderate (contentOfBytes forced) := by
    have content : contentOfBytes forced = ["p cnf 2 2".toList, "1 2 0 -1".toList] := by
      rw [forced, contentOfBytes_encode]
      decide +kernel
    rw [content]
    rintro _ ⟨⟩ vars clauses other
    rw [other.unique announces]
    decide
  have parses : Parses forced ⟨2, #[[⟨0, false⟩, ⟨1, false⟩], [⟨0, true⟩]]⟩ :=
    (parses_encode_iff _ _).mpr ⟨[.unterminatedClause], by decide +kernel⟩
  have printed : (run { model := true, rescan := true, decayInterval := some 0 } (.ok forced)).map
      Outcome.output = .ok ["SAT", "v -1 2 0"] := by
    decide +kernel
  obtain ⟨outcome, ran, exit, answers, same⟩ :=
    run_answers forced moderate { model := true, rescan := true, decayInterval := some 0 }
  have output : outcome.output = ["SAT", "v -1 2 0"] := by
    rw [ran] at printed
    exact Except.ok.inj printed
  have code : outcome.code = 0 := by
    rcases exit with ⟨-, code⟩ | ⟨none, -⟩
    · exact code
    · exact absurd ⟨_, parses⟩ none
  refine ⟨moderate, _, outcome, parses, by decide, ran, code, output, answers _ parses, ?_⟩
  intro options outcome' ran'
  rw [same options outcome' ran', output]
  rfl

end ClauseLearning.CommandLine
