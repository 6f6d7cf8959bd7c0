import ClauseLearning.Proofs.Input.Acceptance
import ClauseLearning.Proofs.Input.Grammar

/-! # Reading by the grammar

Reading goes line by line and word by word, with a formula and the integers of a clause not closed yet
as its state. From every such state it is described what the lines still to come lead to, so that
nothing has to be remembered of the lines before.
-/

namespace ClauseLearning.Dimacs

/-! ## The words of a line -/

/-- The second formula is the first one with the clauses that integers make, those of a clause not
closed yet coming first. -/
structure Extends (f : Formula) (unclosed tokens : List Int) (f' : Formula) : Prop where
  within : ∀ x ∈ unclosed ++ tokens, x ≠ 0 → x.natAbs ≤ f.varCount
  vars : f'.varCount = f.varCount
  clauses : f'.toInts = f.toInts ++ groups (unclosed ++ tokens)

section Words
variable {f f' g : Formula} {unclosed later : List Int} {x : Int}

/-- What is left to close is closed by the integers to come. -/
theorem extends_append_iff :
    Extends f unclosed (x :: later) g ↔ Extends f (unclosed ++ [x]) later g := by
  constructor
  · rintro ⟨within, vars, clauses⟩
    exact ⟨by simpa using within, vars, by simpa using clauses⟩
  · rintro ⟨within, vars, clauses⟩
    exact ⟨by simpa using within, vars, by simpa using clauses⟩

/-- Integers are admitted if they stay within the variables, and none is zero. -/
theorem admits_iff {vars : Nat} (nonzero : 0 ∉ unclosed) :
    (∀ x ∈ unclosed, Formula.Admits vars x) ↔ ∀ x ∈ unclosed, x ≠ 0 → x.natAbs ≤ vars := by
  constructor
  · exact fun admitted x member _ => (admitted x member).2
  · intro within x member
    have : x ≠ 0 := ne_of_mem_of_not_mem member nonzero
    exact ⟨this, within x member this⟩

/-- A zero closes a clause, which is added to the formula. -/
theorem extends_zero_iff (nonzero : 0 ∉ unclosed)
    (admitted : ∀ x ∈ unclosed, Formula.Admits f.varCount x)
    (vars : f'.varCount = f.varCount) (clauses : f'.toInts = f.toInts ++ [unclosed]) :
    Extends f unclosed (0 :: later) g ↔ Extends f' [] later g := by
  have closed := (admits_iff nonzero).mp admitted
  constructor
  · rintro ⟨within, same, given⟩
    refine ⟨fun x member => ?_, same.trans vars.symm, ?_⟩
    · rw [vars]
      exact within x (by simpa using .inr (.inr member))
    · rw [given, groups_append_zero nonzero later, clauses]
      simp
  · rintro ⟨within, same, given⟩
    refine ⟨fun x member => ?_, same.trans vars, ?_⟩
    · rcases List.mem_append.mp member with member | member
      · exact closed x member
      · rcases List.mem_cons.mp member with rfl | member
        · exact fun zero => absurd rfl zero
        · exact vars ▸ within x member
    · rw [given, groups_append_zero nonzero later, clauses]
      simp

/-- What reading the words of a line leads to: either the rest of the integers may be read from the
state that is left, or no formula comes of them. -/
inductive Leads (f : Formula) (unclosed : List Int) (words : List (List Char)) :
    Except DimacsError (Formula × List Int) → Prop
  | on {f' : Formula} {unclosed' tokens : List Int} (numerals : List.Forall₂ Text.Signed words tokens)
      (vars : f'.varCount = f.varCount) (nonzero : 0 ∉ unclosed')
      (same : ∀ later g, Extends f unclosed (tokens ++ later) g ↔ Extends f' unclosed' later g) :
      Leads f unclosed words (.ok (f', unclosed'))
  | nowhere {e : DimacsError}
      (none : ∀ tokens later g, List.Forall₂ Text.Signed words tokens →
        ¬ Extends f unclosed (tokens ++ later) g) :
      Leads f unclosed words (.error e)

/-- A word more at the front changes nothing but the state from which the others are read. -/
theorem Leads.cons {word : List Char} {words : List (List Char)} {unclosed' : List Int}
    {outcome : Except DimacsError (Formula × List Int)} (leads : Leads f' unclosed' words outcome)
    (numeral : Text.Signed word x) (vars : f'.varCount = f.varCount)
    (same : ∀ later g, Extends f unclosed (x :: later) g ↔ Extends f' unclosed' later g) :
    Leads f unclosed (word :: words) outcome := by
  cases leads with
  | on numerals vars' nonzero rest =>
    exact .on (.cons numeral numerals) (vars'.trans vars) nonzero fun later g =>
      (same _ g).trans (rest later g)
  | nowhere none =>
    refine .nowhere fun tokens later g numerals extended => ?_
    cases numerals with
    | cons other numerals =>
      cases numeral.unique other
      exact none _ later g numerals ((same _ g).mp extended)

theorem readWords_leads (moderate : f.varCount ≤ 2 ^ 31) (nonzero : 0 ∉ unclosed) (line : Nat)
    (words : List (List Char)) :
    Yields (readWords line words f unclosed) (Leads f unclosed words) := by
  induction words generalizing f unclosed with
  | nil => exact .intro rfl (.on .nil rfl nonzero fun later g => Iff.rfl)
  | cons word rest ih =>
    rw [readWords]
    cases read : Text.signed? word with
    | none =>
      refine .intro rfl (.nowhere fun tokens later g numerals => ?_)
      cases numerals with
      | cons numeral =>
        rw [← Text.signed?_eq_some_iff, read] at numeral
        cases numeral
    | some x =>
      have numeral := Text.signed?_eq_some_iff.mp read
      by_cases zero : x = 0
      · subst zero
        simp only [if_true]
        refine (Formula.addClause_accepts moderate unclosed).bind fun outcome accepts => ?_
        cases outcome with
        | error reason =>
          -- A clause that is refused is in the way of every formula.
          refine .intro rfl (.nowhere fun tokens later g numerals extended => ?_)
          refine accepts ((admits_iff nonzero).mpr fun x member => ?_)
          exact extended.within x (List.mem_append_left _ member)
        | ok f' =>
          obtain ⟨admitted, vars, clauses⟩ := accepts_ok_iff.mp accepts
          refine (ih (vars ▸ moderate) List.not_mem_nil).imp fun outcome leads => ?_
          exact leads.cons numeral vars fun later g => extends_zero_iff nonzero admitted vars clauses
      · simp only [if_neg zero]
        have inside : 0 ∉ unclosed ++ [x] := by simpa [eq_comm] using ⟨nonzero, zero⟩
        exact (ih moderate inside).imp fun outcome leads =>
          leads.cons numeral rfl fun later g => extends_append_iff

end Words

/-! ## A line, by its kind -/

section Line
variable {f : Formula} {line : List Char} {number : Nat} {progress : Progress}

theorem readLine_of_ends (ends : endsInput (Text.trim line)) :
    readLine number line progress = .ok (.last progress) := by
  obtain ⟨rest, same⟩ := List.head?_eq_some_iff.mp (beq_iff_eq.mp ends)
  simp only [readLine, same]
  rfl

theorem readLine_of_idle (idle : hasContent (Text.trim line) = false) :
    readLine number line progress = .ok (.more progress) := by
  have either : Text.trim line = [] ∨ ∃ rest, Text.trim line = 'c' :: rest := by
    simpa [hasContent, List.head?_eq_some_iff, or_iff_not_imp_left] using idle
  rcases either with same | ⟨rest, same⟩ <;> simp only [readLine, same] <;> rfl

/-- The first line that looks like a problem line has to be one. -/
theorem readLine_of_problem (fresh : progress.formula = none)
    (problem : (Text.trim line).head? = some 'p') :
    readLine number line progress =
      match header? (Text.trim line) with
      | none => .ok (.failed (.badHeader number (String.ofList (Text.trim line))))
      | some (vars, declared) =>
        .ok (.more { progress with formula := some ⟨vars, #[]⟩, declared }) := by
  obtain ⟨rest, same⟩ := List.head?_eq_some_iff.mp problem
  simp only [readLine, same, fresh]
  rfl

theorem readLine_of_second_problem (begun : progress.formula = some f)
    (problem : (Text.trim line).head? = some 'p') :
    readLine number line progress =
      .ok (.failed (.badHeader number (String.ofList (Text.trim line)))) := by
  obtain ⟨rest, same⟩ := List.head?_eq_some_iff.mp problem
  simp only [readLine, same, begun]
  rfl

theorem readLine_of_early_data (fresh : progress.formula = none)
    (more : endsInput (Text.trim line) = false)
    (content : hasContent (Text.trim line)) (data : (Text.trim line).head? ≠ some 'p') :
    readLine number line progress = .ok (.failed (.missingHeader number)) := by
  unfold readLine
  dsimp only
  split
  case h_6 => rfl
  all_goals simp_all [endsInput, hasContent]

theorem readLine_of_data (begun : progress.formula = some f) (more : endsInput (Text.trim line) = false)
    (content : hasContent (Text.trim line)) (data : (Text.trim line).head? ≠ some 'p') :
    readLine number line progress = do
      match ← readWords number (Text.words (Text.trim line)) f progress.unclosed with
      | .error e => return .failed e
      | .ok (f, unclosed) => return .more { progress with formula := some f, unclosed } := by
  unfold readLine
  dsimp only
  split
  case h_7 same _ _ _ _ =>
    cases begun.symm.trans same
    rfl
  all_goals simp_all [endsInput, hasContent]

end Line

/-! ## The lines still to come -/

def readOn (lines : List (Except ReadFailure (List Char))) (number : Nat) (progress : Progress) :
    Checked (Except DimacsError Formula × List Warning) := do
  match ← readLines lines number progress with
  | .error e => return (.error e, [])
  | .ok (number, progress) => finish number progress

/-- Lines to be read are none, or start with one that cannot be read, one that ends the input, one
without content, or one with content. -/
theorem lines_induction {motive : List (Except ReadFailure (List Char)) → Prop} (nil : motive [])
    (unreadable : ∀ failure rest, motive (.error failure :: rest))
    (last : ∀ line rest, endsInput (Text.trim line) → motive (.ok line :: rest))
    (idle : ∀ line rest, endsInput (Text.trim line) = false → hasContent (Text.trim line) = false →
      motive rest → motive (.ok line :: rest))
    (content : ∀ line rest, endsInput (Text.trim line) = false → hasContent (Text.trim line) →
      motive rest → motive (.ok line :: rest))
    (lines : List (Except ReadFailure (List Char))) : motive lines := by
  induction lines with
  | nil => exact nil
  | cons line rest ih =>
    cases line with
    | error failure => exact unreadable failure rest
    | ok line =>
      cases ends : endsInput (Text.trim line) with
      | true => exact last line rest ends
      | false =>
        cases carries : hasContent (Text.trim line) with
        | true => exact content line rest ends carries ih
        | false => exact idle line rest ends carries ih

section Lines
variable {f : Formula} {unclosed : List Int} {rest : List (Except ReadFailure (List Char))}
  {line : List Char} {number declared : Nat} {progress : Progress}

theorem readOn_cons : readOn (.ok line :: rest) number progress = (do
    match ← readLine (number + 1) line progress with
    | .failed e => return (.error e, [])
    | .last progress => finish (number + 1) progress
    | .more progress => readOn rest (number + 1) progress) := by
  simp only [readOn, readLines]
  cases readLine (number + 1) line progress with
  | error fault => rfl
  | ok result => cases result <;> rfl

theorem readOn_of_ends (ends : endsInput (Text.trim line)) :
    readOn (.ok line :: rest) number progress = finish (number + 1) progress := by
  rw [readOn_cons, readLine_of_ends ends]
  rfl

theorem readOn_of_idle (idle : hasContent (Text.trim line) = false) :
    readOn (.ok line :: rest) number progress = readOn rest (number + 1) progress := by
  rw [readOn_cons, readLine_of_idle idle]
  rfl

/-- At the end of the input a last clause is closed. -/
theorem finish_yields (moderate : f.varCount ≤ 2 ^ 31) (nonzero : 0 ∉ unclosed) :
    Yields (finish number { formula := some f, declared, unclosed }) fun outcome =>
      ∀ g, outcome.1 = .ok g ↔ Extends f unclosed [] g := by
  simp only [finish]
  cases unclosed with
  | nil =>
    rw [List.isEmpty_nil, if_pos rfl]
    refine .intro rfl fun g => ?_
    constructor
    · rintro ⟨⟩
      exact ⟨by simp, rfl, by simp [groups_of_nonzero]⟩
    · rintro ⟨-, vars, clauses⟩
      have same : f.toInts = g.toInts := by simpa [groups_of_nonzero] using clauses.symm
      rw [Formula.ext_toInts vars.symm same]
  | cons x rest =>
    rw [List.isEmpty_cons, if_neg Bool.false_ne_true]
    refine (Formula.addClause_accepts moderate (x :: rest)).bind fun outcome accepts => ?_
    cases outcome with
    | error reason =>
      refine .intro rfl fun g => ⟨nofun, fun extended => ?_⟩
      refine (accepts ((admits_iff nonzero).mpr fun y member => ?_)).elim
      exact extended.within y (List.mem_append_left _ member)
    | ok f' =>
      obtain ⟨admitted, vars, clauses⟩ := accepts_ok_iff.mp accepts
      have last : groups (x :: rest) = [x :: rest] := by simp [groups_of_nonzero nonzero]
      refine .intro rfl fun g => ?_
      constructor
      · rintro ⟨⟩
        refine ⟨fun y member => (admits_iff nonzero).mp admitted y (by simpa using member), vars, ?_⟩
        rw [List.append_nil, last, clauses]
      · rintro ⟨-, vars', clauses'⟩
        rw [List.append_nil, last] at clauses'
        rw [Formula.ext_toInts (vars.trans vars'.symm) (clauses.trans clauses'.symm)]

theorem exists_enumerates_nil_iff {g : Formula} :
    (∃ tokens, Enumerates [] tokens ∧ Extends f unclosed tokens g) ↔ Extends f unclosed [] g := by
  simp [enumerates_nil_iff]

/-- Once the problem line has come, the formula read is the one so far with the clauses that the
integers of the lines still to come make. -/
theorem readOn_begun (moderate : f.varCount ≤ 2 ^ 31) (nonzero : 0 ∉ unclosed)
    (lines : List (Except ReadFailure (List Char))) :
    Yields (readOn lines number { formula := some f, declared, unclosed }) fun outcome =>
      ∀ g, outcome.1 = .ok g ↔ Legible lines ∧
        ∃ tokens, Enumerates (contentLines (readable lines)) tokens ∧ Extends f unclosed tokens g := by
  induction lines using lines_induction generalizing f unclosed number declared with
  | nil =>
    refine (finish_yields moderate nonzero).imp fun outcome same g => ?_
    exact (same g).trans ((and_iff_right legible_nil).trans exists_enumerates_nil_iff).symm
  | unreadable failure rest =>
    exact .intro rfl fun g => ⟨nofun, fun read => absurd read.1 not_legible_error⟩
  | last line rest ends =>
    rw [readOn_of_ends ends, readable_cons, contentLines_of_ends ends]
    refine (finish_yields moderate nonzero).imp fun outcome same g => ?_
    rw [same g, exists_enumerates_nil_iff, and_iff_right (legible_of_ends ends)]
  | idle line rest more idle ih =>
    rw [readOn_of_idle idle, readable_cons, contentLines_of_idle more idle]
    simp only [legible_cons_iff more]
    exact ih moderate nonzero
  | content line rest more content ih =>
    rw [readOn_cons, readable_cons, contentLines_of_content more content]
    simp only [legible_cons_iff more]
    by_cases problem : (Text.trim line).head? = some 'p'
    · rw [readLine_of_second_problem rfl problem, ok_bind]
      refine .intro rfl fun g => ⟨nofun, ?_⟩
      rintro ⟨-, tokens, enumerated, -⟩
      exact absurd problem (enumerates_cons_iff.mp enumerated).1
    · rw [readLine_of_data (f := f) rfl more content problem, bind_assoc]
      refine (readWords_leads moderate nonzero _ _).bind fun outcome leads => ?_
      cases leads with
      | nowhere none =>
        refine .intro rfl fun g => ⟨nofun, ?_⟩
        rintro ⟨-, tokens, enumerated, extended⟩
        obtain ⟨-, front, back, rfl, numerals, -⟩ := enumerates_cons_iff.mp enumerated
        exact absurd extended (none front back g numerals)
      | on numerals vars inside same =>
        refine (ih (vars ▸ moderate) inside).imp fun outcome read g => ?_
        rw [read g, exists_enumerates_cons_iff problem numerals]
        simp only [same]

theorem not_describes_nil {tokens : List Int} : ¬ Describes [] tokens f := by
  rintro ⟨⟨⟨line, member, -⟩, -, -⟩, -⟩
  cases member

/-- The lines after a problem line extend the formula without clauses. -/
theorem describes_cons_iff {lines : List (List Char)} {vars clauses : Nat} {tokens : List Int}
    (announces : Announces line vars clauses) :
    Describes (line :: lines) tokens f ↔ Enumerates lines tokens ∧ Extends ⟨vars, #[]⟩ [] tokens f := by
  constructor
  · rintro ⟨⟨⟨_, ⟨⟩, clauses', same⟩, data, within⟩, clauses⟩
    cases same.unique announces
    exact ⟨data, within, rfl, clauses⟩
  · rintro ⟨data, within, vars, clauses⟩
    cases vars
    exact ⟨⟨⟨line, rfl, _, announces⟩, data, within⟩, clauses⟩

/-- Before the problem line, a formula is read exactly if the lines still to come describe it. -/
theorem readOn_yields {lines : List (Except ReadFailure (List Char))}
    (moderate : Moderate (contentLines (readable lines))) :
    Yields (readOn lines number {}) fun outcome =>
      ∀ f, outcome.1 = .ok f ↔ Legible lines ∧
        ∃ tokens, Describes (contentLines (readable lines)) tokens f := by
  induction lines using lines_induction generalizing number with
  | nil =>
    exact .intro rfl fun f => ⟨nofun, fun ⟨_, _, described⟩ => absurd described not_describes_nil⟩
  | unreadable failure rest =>
    exact .intro rfl fun f => ⟨nofun, fun described => absurd described.1 not_legible_error⟩
  | last line rest ends =>
    rw [readOn_of_ends ends, readable_cons, contentLines_of_ends ends]
    exact .intro rfl fun f => ⟨nofun, fun ⟨_, _, described⟩ => absurd described not_describes_nil⟩
  | idle line rest more idle ih =>
    rw [readable_cons, contentLines_of_idle more idle] at moderate ⊢
    simp only [readOn_of_idle idle, legible_cons_iff more]
    exact ih moderate
  | content line rest more content ih =>
    rw [readable_cons, contentLines_of_content more content] at moderate ⊢
    simp only [readOn_cons, legible_cons_iff more]
    by_cases problem : (Text.trim line).head? = some 'p'
    · rw [readLine_of_problem rfl problem]
      cases header : header? (Text.trim line) with
      | none =>
        refine .intro rfl fun f => ⟨nofun, ?_⟩
        rintro ⟨-, tokens, ⟨⟨_, ⟨⟩, clauses, announces⟩, -, -⟩, -⟩
        rw [← header?_eq_some_iff, header] at announces
        cases announces
      | some announced =>
        have announces := header?_eq_some_iff.mp header
        have small := moderate _ rfl _ _ announces
        refine (readOn_begun small List.not_mem_nil rest).imp fun outcome read f => ?_
        simp only [read f, describes_cons_iff announces]
    · rw [readLine_of_early_data rfl more content problem]
      refine .intro rfl fun f => ⟨nofun, ?_⟩
      rintro ⟨-, tokens, ⟨⟨_, ⟨⟩, clauses, announces⟩, -, -⟩, -⟩
      exact absurd announces.head_trim problem

/-- A formula is read exactly if the lines describe it. -/
theorem read_yields {lines : List (Except ReadFailure (List Char))}
    (moderate : Moderate (contentLines (readable lines))) :
    Yields (read lines) fun outcome =>
      ∀ f, outcome.1 = .ok f ↔ Legible lines ∧
        ∃ tokens, Describes (contentLines (readable lines)) tokens f :=
  readOn_yields moderate

end Lines

end ClauseLearning.Dimacs
