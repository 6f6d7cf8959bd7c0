import ClauseLearning.Proofs.Input.Printing
import ClauseLearning.Proofs.Input.Scan

/-! # Laying words out on lines

Words can be laid out in many ways: with any blanks between them and at the ends of lines, broken into
lines anywhere, with blank lines and comments between the lines, and with anything after a line that
ends the input. Scanning finds the same integers however their numerals are laid out.
-/

namespace ClauseLearning.Dimacs

/-- The line has the words in order, with blanks between any two of them and perhaps at its ends. -/
inductive Spaced : List (List Char) → List Char → Prop
  | nil (gap : List Char) : (∀ c ∈ gap, Text.isBlank c) → Spaced [] gap
  | last (gap word : List Char) : (∀ c ∈ gap, Text.isBlank c) → Spaced [word] (gap ++ word)
  | cons (gap word : List Char) (c : Char) {words : List (List Char)} {rest : List Char} :
      (∀ c ∈ gap, Text.isBlank c) → Text.isBlank c → Spaced words rest →
      Spaced (word :: words) (gap ++ (word ++ c :: rest))

/-- The line is blank, or it is a comment. -/
inductive Idle : List Char → Prop
  | blank (gap : List Char) : (∀ c ∈ gap, Text.isBlank c) → Idle gap
  | comment (gap rest : List Char) : (∀ c ∈ gap, Text.isBlank c) → Idle (gap ++ 'c' :: rest)

/-- The lines have the words in order, perhaps with blank lines and comments among them, and perhaps with
a line behind them that ends the input. -/
inductive LaidOut : List (List Char) → List (List Char) → Prop
  | done : LaidOut [] []
  | ended (gap rest : List Char) (lines : List (List Char)) :
      (∀ c ∈ gap, Text.isBlank c) → LaidOut [] ((gap ++ '%' :: rest) :: lines)
  | idle {words : List (List Char)} {line : List Char} {lines : List (List Char)} :
      Idle line → LaidOut words lines → LaidOut words (line :: lines)
  | data {words later : List (List Char)} {line : List Char} {lines : List (List Char)} :
      words ≠ [] → Spaced words line → LaidOut later lines → LaidOut (words ++ later) (line :: lines)

/-- The lines announce the numbers and then have the words, perhaps with blank lines and comments before
the problem line too. -/
inductive Document (vars declared : Nat) (words : List (List Char)) : List (List Char) → Prop
  | idle {line : List Char} {lines : List (List Char)} :
      Idle line → Document vars declared words lines → Document vars declared words (line :: lines)
  | problem {line : List Char} {lines : List (List Char)} :
      Spaced [['p'], ['c', 'n', 'f'], (toString vars).toList, (toString declared).toList] line →
      LaidOut words lines → Document vars declared words (line :: lines)

/-- The text consists of the lines. A line end closes each of them, but the last one may go without it
unless it is empty. -/
inductive Composed : List (List Char) → List Char → Prop
  | nil : Composed [] []
  | last (line : List Char) : line ≠ [] → '\n' ∉ line → Composed [line] line
  | cons (line : List Char) {lines : List (List Char)} {text : List Char} :
      '\n' ∉ line → Composed lines text → Composed (line :: lines) (line ++ '\n' :: text)

section Lines
variable {words : List (List Char)} {line gap text : List Char} {lines : List (List Char)} {c : Char}

theorem hasContent_of_head (head : line.head? = some c) (noComment : c ≠ 'c') : hasContent line := by
  obtain ⟨rest, rfl⟩ := List.head?_eq_some_iff.mp head
  simpa [hasContent] using noComment

theorem not_endsInput_of_head (head : line.head? = some c) (more : c ≠ '%') : endsInput line = false := by
  simpa [endsInput, head] using more

theorem Composed.splitLines_eq (composed : Composed lines text) : splitLines (· == '\n') text = lines := by
  have inside {line : List Char} (absent : '\n' ∉ line) : ∀ c ∈ line, (c == '\n') = false :=
    fun c member => beq_eq_false_iff_ne.mpr (ne_of_mem_of_not_mem member absent)
  induction composed with
  | nil => rfl
  | last line begun absent =>
    rw [splitLines_of_forall (inside absent), if_neg (by simpa using begun)]
  | cons line absent _ ih => rw [splitLines_append_cons (inside absent) rfl, ih]

/-- The words of a line are found whatever the blanks between them. -/
theorem Spaced.words_eq (spaced : Spaced words line)
    (solid : ∀ word ∈ words, word ≠ [] ∧ ∀ c ∈ word, Text.isBlank c = false) :
    Text.words line = words := by
  induction spaced with
  | nil gap blank => exact Text.words_of_blank blank
  | last gap word blank =>
    obtain ⟨begun, whole⟩ := solid word List.mem_cons_self
    rw [Text.words_append_left blank, Text.words_of_solid begun whole]
  | cons gap word c blank separates _ ih =>
    obtain ⟨⟨begun, whole⟩, others⟩ := List.forall_mem_cons.mp solid
    rw [Text.words_append_left blank, Text.words_append_cons separates, Text.words_of_solid begun whole,
      ih others]
    rfl

theorem Idle.trim (idle : Idle line) : Text.trim line = [] ∨ (Text.trim line).head? = some 'c' := by
  cases idle with
  | blank gap blank => exact .inl (Text.trim_of_blank blank)
  | comment gap rest blank => exact .inr (Text.head_trim_of_gap blank (by decide) rest)

theorem Idle.not_hasContent (idle : Idle line) : hasContent (Text.trim line) = false := by
  rcases idle.trim with empty | head
  · simp [hasContent, empty]
  · simp [hasContent, head]

theorem Idle.not_endsInput (idle : Idle line) : endsInput (Text.trim line) = false := by
  rcases idle.trim with empty | head
  · simp [endsInput, empty]
  · simp [endsInput, head]

theorem endsInput_of_gap (blank : ∀ c ∈ gap, Text.isBlank c) (rest : List Char) :
    endsInput (Text.trim (gap ++ '%' :: rest)) := by
  have head : (Text.trim (gap ++ '%' :: rest)).head? = some '%' :=
    Text.head_trim_of_gap blank (by decide) rest
  simp [endsInput, head]

end Lines

/-! ## Scanning what is laid out -/

section Scanning
variable {words : List (List Char)} {xs : List Int} {lines : List (List Char)} {line : List Char}
  {vars declared : Nat}

theorem scanWords_of_numerals (numerals : List.Forall₂ Text.Signed words xs) (number : Nat)
    (later : Scan) : scanWords number later words = ⟨xs.map (⟨number, ·⟩) ++ later.placed, later.stop⟩ := by
  induction numerals with
  | nil => rfl
  | cons numeral _ ih =>
    rw [scanWords, Text.signed?_eq_some_iff.mpr numeral, ih]
    rfl

/-- A line of numerals is a line of data. -/
theorem data_of_numerals (begun : words ≠ []) (spaced : Spaced words line)
    (numerals : List.Forall₂ Text.Signed words xs) :
    Text.words (Text.trim line) = words ∧ endsInput (Text.trim line) = false ∧
      hasContent (Text.trim line) ∧ (Text.trim line).head? ≠ some 'p' := by
  have signed : ∀ word ∈ words, ∃ x, Text.Signed word x :=
    ((List.forall₂_and_left words xs).mp (numerals.imp fun word x numeral => ⟨⟨x, numeral⟩, numeral⟩)).1
  have found : Text.words line = words := by
    refine spaced.words_eq fun word member => ?_
    obtain ⟨x, numeral⟩ := signed word member
    exact ⟨numeral.ne_nil, fun c inside => (numeral.plain c inside).1⟩
  -- The kind of a line is read off its first character, which is that of the first numeral.
  obtain ⟨first, others, rfl⟩ := List.exists_cons_of_ne_nil begun
  obtain ⟨x, numeral⟩ := signed first List.mem_cons_self
  obtain ⟨c, tail, rfl⟩ := List.exists_cons_of_ne_nil numeral.ne_nil
  obtain ⟨-, noComment, noProblem, more⟩ := numeral.plain c List.mem_cons_self
  have head := Text.head_trim_of_words found
  refine ⟨(Text.words_trim line).trans found, not_endsInput_of_head head more,
    hasContent_of_head head noComment, ?_⟩
  simpa [head] using noProblem

/-- Scanning the numerals of integers finds the integers, however they are laid out. -/
theorem LaidOut.scanData_finds (laidOut : LaidOut words lines)
    (numerals : List.Forall₂ Text.Signed words xs) (number : Nat) :
    ∃ last, (scanData (lines.map .ok) number).stop = .ok last ∧
      (scanData (lines.map .ok) number).placed.map Placed.value = xs := by
  induction laidOut generalizing number xs with
  | done =>
    cases numerals
    exact ⟨number, rfl, rfl⟩
  | ended gap rest lines blank =>
    cases numerals
    rw [List.map_cons, scanData_of_ends (endsInput_of_gap blank rest)]
    exact ⟨number + 1, rfl, rfl⟩
  | idle idle _ ih =>
    rw [List.map_cons, scanData_of_idle idle.not_endsInput idle.not_hasContent]
    exact ih numerals (number + 1)
  | @data words later line lines begun spaced _ ih =>
    obtain ⟨front, back, rfl, here, others⟩ := Text.exists_of_signed_append numerals
    obtain ⟨found, more, content, data⟩ := data_of_numerals begun spaced here
    obtain ⟨last, stop, values⟩ := ih others (number + 1)
    rw [List.map_cons, scanData_of_words more content data, found, scanWords_of_numerals here]
    refine ⟨last, stop, ?_⟩
    rw [List.map_append, values, List.map_map]
    exact congrArg (· ++ back) (List.map_id front)

/-- A problem line announces its numbers. -/
theorem announces_of_spaced (smallVars : vars < 2 ^ 64) (smallCount : declared < 2 ^ 64)
    (spaced : Spaced [['p'], ['c', 'n', 'f'], (toString vars).toList, (toString declared).toList] line) :
    Announces (Text.trim line) vars declared := by
  have solid (n : Nat) : (toString n).toList ≠ [] ∧ ∀ c ∈ (toString n).toList, Text.isBlank c = false :=
    have decimal := Text.decimal_toString n
    ⟨decimal.ne_nil, fun c inside => (decimal.plain c inside).1⟩
  refine ⟨_, _, (Text.words_trim line).trans (spaced.words_eq ?_), Text.unsigned_toString smallVars,
    Text.unsigned_toString smallCount⟩
  simp only [List.forall_mem_cons, List.not_mem_nil, false_implies, implies_true, and_true]
  exact ⟨by decide, by decide, solid vars, solid declared⟩

/-- Scanning a document finds the numbers announced and the integers of the numerals. -/
theorem Document.scan_finds (document : Document vars declared words lines) (smallVars : vars < 2 ^ 64)
    (smallCount : declared < 2 ^ 64) (numerals : List.Forall₂ Text.Signed words xs) (number : Nat) :
    ∃ placed last, placed.map Placed.value = xs ∧
      scan (lines.map .ok) number = .ok ⟨⟨placed, .ok last⟩, vars, declared⟩ := by
  induction document generalizing number with
  | idle idle _ ih =>
    rw [List.map_cons, scan_of_idle idle.not_endsInput idle.not_hasContent]
    exact ih (number + 1)
  | @problem line lines spaced laidOut =>
    have announces := announces_of_spaced smallVars smallCount spaced
    have head := announces.head_trim
    have more := not_endsInput_of_head head (by decide)
    have content := hasContent_of_head head (by decide)
    obtain ⟨last, stop, values⟩ := laidOut.scanData_finds numerals (number + 1)
    refine ⟨_, last, values, ?_⟩
    rw [List.map_cons, scan_of_problem more content head, header?_eq_some_iff.mpr announces]
    simp [← stop]

end Scanning

end ClauseLearning.Dimacs
