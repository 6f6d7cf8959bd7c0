import ClauseLearning.Proofs.Input.Filling

/-! # The lines that refusals name

A clause is looked at when it is closed, and a refusal names the line where that happens: the line of
the zero, or the last line that was read if there is no zero. The integer to blame may stand on an
earlier line. Where no clause goes over several lines, the line named is the line of the integer.
-/

namespace ClauseLearning.Dimacs

/-- The line with the number, counted from one, has a numeral of the variable or its negation. -/
def Mentions (lines : List (List Char)) (number var : Nat) : Prop :=
  ∃ before chars word x, lines[before]? = some chars ∧ number = before + 1 ∧
    word ∈ Text.words chars ∧ Text.Signed word x ∧ x.natAbs = var

/-- Every integer stands on the line where its clause is closed. -/
def Compact (row : List Placed) : Prop :=
  ∀ front p later line after, row = front ++ p :: (later ++ ⟨line, 0⟩ :: after) → p.value ≠ 0 →
    (∀ q ∈ later, q.value ≠ 0) → p.line = line

section Scanning
variable {number : Nat} {lines : List (Except ReadFailure (List Char))} {p : Placed}

/-! ## Where integers come from -/

theorem mem_scanWords {later : Scan} {words : List (List Char)}
    (member : p ∈ (scanWords number later words).placed) :
    (p.line = number ∧ ∃ word ∈ words, Text.Signed word p.value) ∨ p ∈ later.placed := by
  induction words with
  | nil => exact .inr member
  | cons word rest ih =>
    rw [scanWords] at member
    split at member
    · cases member
    · rename_i x read
      rcases List.mem_cons.mp member with rfl | member
      · exact .inl ⟨rfl, word, List.mem_cons_self, Text.signed?_eq_some_iff.mp read⟩
      · rcases ih member with ⟨same, word', inside, numeral⟩ | later
        · exact .inl ⟨same, word', List.mem_cons_of_mem _ inside, numeral⟩
        · exact .inr later

/-- An integer found by scanning stands on its line. -/
theorem mem_scanData (member : p ∈ (scanData lines number).placed) :
    ∃ before chars word, lines[before]? = some (.ok chars) ∧ p.line = number + before + 1 ∧
      word ∈ Text.words chars ∧ Text.Signed word p.value := by
  induction lines using lines_induction generalizing number with
  | nil => cases member
  | unreadable failure rest => cases member
  | last chars rest ends =>
    rw [scanData_of_ends ends] at member
    cases member
  | idle chars rest more idle ih =>
    rw [scanData_of_idle more idle] at member
    obtain ⟨before, chars', word, found, same, inside⟩ := ih member
    exact ⟨before + 1, chars', word, found, by omega, inside⟩
  | content chars rest more content ih =>
    by_cases problem : (Text.trim chars).head? = some 'p'
    · rw [scanData_of_problem more content problem] at member
      cases member
    · rw [scanData_of_words more content problem, Text.words_trim] at member
      rcases mem_scanWords member with ⟨same, word, inside, numeral⟩ | member
      · exact ⟨0, chars, word, rfl, same, inside, numeral⟩
      · obtain ⟨before, chars', word, found, same, inside⟩ := ih member
        exact ⟨before + 1, chars', word, found, by omega, inside⟩

/-! ## The order of the lines -/

/-- The integers and the end come in the order of their lines, and none of them before the line. -/
def Scan.Ordered (s : Scan) (number : Nat) : Prop :=
  (number :: s.row.map Placed.line).Pairwise (· ≤ ·)

theorem Scan.Ordered.weaken {s : Scan} {number' : Nat} (ordered : s.Ordered number')
    (below : number ≤ number') : s.Ordered number := by
  obtain ⟨least, sorted⟩ := List.pairwise_cons.mp ordered
  exact List.pairwise_cons.mpr ⟨fun line member => below.trans (least line member), sorted⟩

theorem ordered_scanWords {later : Scan} (ordered : later.Ordered number) (words : List (List Char)) :
    (scanWords number later words).Ordered number := by
  induction words with
  | nil => exact ordered
  | cons word rest ih =>
    rw [scanWords]
    split
    · exact List.pairwise_singleton _ _
    · refine List.pairwise_cons.mpr ⟨fun line member => ?_, ih⟩
      rcases List.mem_cons.mp member with rfl | member
      · exact le_rfl
      · exact (List.pairwise_cons.mp ih).1 line member

theorem ordered_scanData (lines : List (Except ReadFailure (List Char))) :
    (scanData lines number).Ordered number := by
  induction lines using lines_induction generalizing number with
  | nil => simp [Scan.Ordered, Scan.row, scanData, ending]
  | unreadable failure rest => exact List.pairwise_singleton _ _
  | last chars rest ends =>
    rw [scanData_of_ends ends]
    simp [Scan.Ordered, Scan.row, ending]
  | idle chars rest more idle ih =>
    rw [scanData_of_idle more idle]
    exact ih.weaken (Nat.le_succ number)
  | content chars rest more content ih =>
    by_cases problem : (Text.trim chars).head? = some 'p'
    · rw [scanData_of_problem more content problem]
      exact List.pairwise_singleton _ _
    · rw [scanData_of_words more content problem]
      exact (ordered_scanWords ih _).weaken (Nat.le_succ number)

theorem ordered_scan {c : Contents} (scanned : scan lines number = .ok c) : c.Ordered number := by
  obtain ⟨front, rest, -, data⟩ := exists_scanData scanned
  have ordered : c.Ordered (number + front.length) := data ▸ ordered_scanData rest
  exact ordered.weaken (Nat.le_add_right number _)

end Scanning

section Refusals
variable {lines : List (List Char)} {c : Contents} {s : Scan} {p : Placed} {vars line number : Nat}

/-- A line that an integer is found on mentions its variable. -/
theorem mentions_of_mem (scanned : scan (lines.map .ok) 0 = .ok c) (member : p ∈ c.placed) :
    Mentions lines p.line p.value.natAbs := by
  obtain ⟨front, rest, same, data⟩ := exists_scanData scanned
  rw [data] at member
  obtain ⟨before, chars, word, found, place, inside, numeral⟩ := mem_scanData member
  refine ⟨front.length + before, chars, word, p.value, ?_, by omega, inside, numeral, rfl⟩
  have located : (lines.map Except.ok)[front.length + before]? =
      some (.ok chars : Except ReadFailure (List Char)) := by
    rw [same, List.getElem?_append_right (Nat.le_add_right _ _), Nat.add_sub_cancel_left, found]
  simpa using located

/-- What blocks is an integer of the input, not its end. -/
theorem Blocks.mem_placed (blocks : Blocks vars s.row p line) : p ∈ s.placed := by
  obtain ⟨front, later, after, same, -, -⟩ := blocks.split
  have member : p ∈ s.row := same ▸ List.mem_append_right _ List.mem_cons_self
  rcases List.mem_append.mp member with inside | ended
  · exact inside
  · cases stop : s.stop with
    | error e =>
      rw [stop] at ended
      cases ended
    | ok last =>
      -- The end counts as a zero, and a zero does not block.
      rw [stop, ending, List.mem_singleton] at ended
      exact absurd (congrArg Placed.value ended) blocks.nonzero

/-- The clause is closed on the line of the integer or on a later one. -/
theorem Blocks.line_le (blocks : Blocks vars s.row p line) (ordered : s.Ordered number) :
    p.line ≤ line := by
  obtain ⟨front, later, after, same, -, -⟩ := blocks.split
  have sorted := (List.pairwise_cons.mp ordered).2
  rw [same, List.map_append, List.map_cons] at sorted
  have fromHere := (List.pairwise_append.mp sorted).2.1
  exact (List.pairwise_cons.mp fromHere).1 line (by simp)

theorem Blocks.line_eq (blocks : Blocks vars s.row p line) (compact : Compact s.row) :
    p.line = line := by
  obtain ⟨front, later, after, same, -, between⟩ := blocks.split
  exact compact front p later line after same blocks.nonzero between

theorem refusal_eq_variableOutOfRange {x : Int} {var vars' : Nat}
    (refused : Formula.refusal vars x = .ok (.variableOutOfRange var vars')) :
    x.natAbs = var ∧ vars = vars' :=
  (Formula.refusal_eq_variableOutOfRange_iff.mp refused).2.2

theorem compact_of_forall_line {row : List Placed} (same : ∀ p ∈ row, p.line = line) : Compact row := by
  rintro front p later line' after rfl - -
  exact (same p (by simp)).trans (same ⟨line', 0⟩ (by simp)).symm

end Refusals

/-- Where a text is refused for a variable out of range, an integer of the variable is the first one
that does not fit, and the line named is the line where its clause is closed. The integer stands on that
line or on an earlier one; if every integer stands on the line where its clause is closed, it stands on
that line. -/
theorem refused_located {text : String} {line var vars : Nat} {warnings : List Warning}
    (refused : readText text =
      .ok (.error (.refusedClause line (.variableOutOfRange var vars)), warnings)) :
    ∃ c p, scan (textLines text.toList) 0 = .ok c ∧ c.vars = vars ∧ Blocks vars c.row p line ∧
      p.value.natAbs = var ∧ p.line ≤ line ∧
      Mentions (splitLines (· == '\n') text.toList) p.line var ∧
      (Compact c.row → Mentions (splitLines (· == '\n') text.toList) line var) := by
  obtain ⟨c, scanned, p, blocks, reason⟩ := read_refuses_iff.mp ⟨warnings, refused⟩
  obtain ⟨rfl, rfl⟩ := refusal_eq_variableOutOfRange reason
  have mentioned := mentions_of_mem scanned blocks.mem_placed
  refine ⟨c, p, scanned, rfl, blocks, rfl, blocks.line_le (ordered_scan scanned), mentioned,
    fun compact => ?_⟩
  rwa [blocks.line_eq compact] at mentioned

/-- Two integers on one line with their zero, the second one beyond the variables. -/
def beyond : String := "c beyond\np cnf 2 1\n-1 3 0"

theorem refused_located_beyond : readText beyond =
      .ok (.error (.refusedClause 3 (.variableOutOfRange 3 2)), []) ∧
    Mentions (splitLines (· == '\n') beyond.toList) 3 3 := by
  have refused : readText beyond = .ok (.error (.refusedClause 3 (.variableOutOfRange 3 2)), []) := by
    decide +kernel
  have scanned : scan (textLines beyond.toList) 0 =
      .ok ⟨⟨[⟨3, -1⟩, ⟨3, 3⟩, ⟨3, 0⟩], .ok 3⟩, 2, 1⟩ := by
    decide +kernel
  obtain ⟨c, p, found, -, -, -, -, -, mentioned⟩ := refused_located refused
  cases scanned.symm.trans found
  have same : ∀ p ∈ [⟨3, -1⟩, ⟨3, 3⟩, ⟨3, 0⟩, ⟨3, 0⟩], Placed.line p = 3 := by decide
  exact ⟨refused, mentioned (compact_of_forall_line same)⟩

/-- An integer beyond the variables on one line, its zero on the next one. -/
def spanning : String := "p cnf 2 1\n3\n0\n"

/-- The line named has no numeral of the variable. -/
theorem spanning_misplaced : readText spanning =
      .ok (.error (.refusedClause 3 (.variableOutOfRange 3 2)), []) ∧
    ¬ Mentions (splitLines (· == '\n') spanning.toList) 3 3 := by
  refine ⟨by decide +kernel, ?_⟩
  -- The third line has the zero and nothing else.
  rintro ⟨before, chars, word, x, found, same, inside, numeral, size⟩
  obtain rfl : before = 2 := by omega
  have third : (splitLines (· == '\n') spanning.toList)[2]? = some ['0'] := by decide +kernel
  cases third.symm.trans found
  have words : Text.words ['0'] = [['0']] := by decide +kernel
  rw [words, List.mem_singleton] at inside
  subst inside
  have zero : Text.Signed ['0'] 0 := Text.signed?_eq_some_iff.mp (by decide +kernel)
  rw [numeral.unique zero] at size
  cases size

end ClauseLearning.Dimacs
