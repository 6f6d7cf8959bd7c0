import ClauseLearning.Dimacs.Reader
import ClauseLearning.Proofs.Input.Numerals
import ClauseLearning.Proofs.Input.Words

/-! # The grammar of formulas in DIMACS form

What a text has to look like to be read, said without regard to how it is read. Trimmed, and without
the blank lines, the comments and whatever comes from a line with a percent sign on, the lines are a
problem line and lines of numerals. The numerals, put in one row wherever the lines break, are cut at
the zeros into the clauses.
-/

namespace ClauseLearning.Dimacs

/-- The lines before the first one that cannot be read. -/
def readable : List (Except ReadFailure (List Char)) → List (List Char)
  | .ok line :: rest => line :: readable rest
  | _ => []

/-- Whether a trimmed line ends the input. -/
def endsInput (line : List Char) : Bool := line.head? == some '%'

/-- Whether a trimmed line is neither blank nor a comment. -/
def hasContent (line : List Char) : Bool := !line.isEmpty && line.head? != some 'c'

/-- The trimmed lines with content, of those before the first one that ends the input. -/
def contentLines (lines : List (List Char)) : List (List Char) :=
  ((lines.map Text.trim).takeWhile (!endsInput ·)).filter hasContent

/-- All lines can be read, up to one that ends the input or to the last one. -/
def Legible (lines : List (Except ReadFailure (List Char))) : Prop :=
  lines = (readable lines).map .ok ∨ ∃ line ∈ readable lines, endsInput (Text.trim line)

/-- The line is a problem line that announces numbers of variables and clauses. -/
def Announces (line : List Char) (vars clauses : Nat) : Prop :=
  ∃ n m, Text.words line = [['p'], ['c', 'n', 'f'], n, m] ∧
    Text.Unsigned n vars ∧ Text.Unsigned m clauses

/-- The lines are made of numerals of the given integers, and none of them starts like a problem
line. -/
structure Enumerates (lines : List (List Char)) (tokens : List Int) : Prop where
  noProblem : ∀ line ∈ lines, line.head? ≠ some 'p'
  numerals : List.Forall₂ Text.Signed (lines.flatMap Text.words) tokens

/-- The clauses that a row of integers makes: the pieces that a zero closes, and what follows the last
one, if anything does. -/
def groups (tokens : List Int) : List (List Int) := splitLines (· == 0) tokens

/-- The lines follow the grammar: a problem line with the number of variables comes first, and the other
lines enumerate integers within the variables. The number of clauses announced does not matter. -/
structure Grammatical (content : List (List Char)) (vars : Nat) (tokens : List Int) : Prop where
  problem : ∃ line ∈ content.head?, ∃ clauses, Announces line vars clauses
  data : Enumerates content.tail tokens
  within : ∀ x ∈ tokens, x ≠ 0 → x.natAbs ≤ vars

/-- The lines follow the grammar, and the formula has the number of variables and the clauses that they
give. -/
structure Describes (content : List (List Char)) (tokens : List Int) (f : Formula) : Prop where
  grammatical : Grammatical content f.varCount tokens
  clauses : f.toInts = groups tokens

/-- If the lines announce a number of variables, then one of at most 2 ^ 31. -/
def Moderate (content : List (List Char)) : Prop :=
  ∀ line ∈ content.head?, ∀ vars clauses, Announces line vars clauses → vars ≤ 2 ^ 31

/-! ## Content -/

section Content
variable {line : List Char} {lines : List (List Char)}

theorem contentLines_of_ends (ends : endsInput (Text.trim line)) :
    contentLines (line :: lines) = [] := by
  simp [contentLines, ends]

theorem contentLines_of_idle (more : endsInput (Text.trim line) = false)
    (idle : hasContent (Text.trim line) = false) :
    contentLines (line :: lines) = contentLines lines := by
  simp [contentLines, more, idle]

theorem contentLines_of_content (more : endsInput (Text.trim line) = false)
    (content : hasContent (Text.trim line)) :
    contentLines (line :: lines) = Text.trim line :: contentLines lines := by
  simp [contentLines, more, content]

@[simp] theorem readable_cons {rest : List (Except ReadFailure (List Char))} :
    readable (.ok line :: rest) = line :: readable rest := rfl

theorem legible_nil : Legible [] := .inl rfl

theorem not_legible_error {failure : ReadFailure} {rest : List (Except ReadFailure (List Char))} :
    ¬ Legible (.error failure :: rest) := by
  rintro (same | ⟨_, member, _⟩)
  · cases same
  · cases member

theorem legible_of_ends {rest : List (Except ReadFailure (List Char))}
    (ends : endsInput (Text.trim line)) : Legible (.ok line :: rest) := .inr ⟨line, List.mem_cons_self, ends⟩

theorem legible_cons_iff {rest : List (Except ReadFailure (List Char))}
    (more : endsInput (Text.trim line) = false) : Legible (.ok line :: rest) ↔ Legible rest := by
  simp [Legible, readable, more]

theorem readable_map_ok (lines : List (List Char)) : readable (lines.map .ok) = lines := by
  induction lines with
  | nil => rfl
  | cons line rest ih => simp [ih]

theorem legible_map_ok (lines : List (List Char)) : Legible (lines.map .ok) := by
  rw [Legible, readable_map_ok]
  exact .inl rfl

end Content

/-! ## Problem lines -/

theorem header?_eq_some_iff {line : List Char} {vars clauses : Nat} :
    header? line = some (vars, clauses) ↔ Announces line vars clauses := by
  simp only [Announces, ← Text.unsigned?_eq_some_iff]
  constructor
  · intro read
    unfold header? at read
    split at read
    · rename_i p cnf n m words
      split at read
      · rename_i keywords
        obtain ⟨rfl, rfl⟩ := keywords
        obtain ⟨vars, readVars, read⟩ := Option.bind_eq_some_iff.mp read
        obtain ⟨clauses, readClauses, read⟩ := Option.bind_eq_some_iff.mp read
        cases read
        exact ⟨n, m, words, readVars, readClauses⟩
      · cases read
    · cases read
  · rintro ⟨n, m, words, readVars, readClauses⟩
    simp [header?, words, readVars, readClauses]

/-- A trimmed line that announces something starts like a problem line. -/
theorem Announces.head_trim {line : List Char} {vars clauses : Nat}
    (announces : Announces (Text.trim line) vars clauses) : (Text.trim line).head? = some 'p' := by
  obtain ⟨n, m, words, -, -⟩ := announces
  exact Text.head_trim_of_words ((Text.words_trim line).symm.trans words)

theorem Announces.unique {line : List Char} {vars vars' clauses clauses' : Nat}
    (one : Announces line vars clauses) (other : Announces line vars' clauses') : vars = vars' := by
  rw [← header?_eq_some_iff] at one other
  cases one.symm.trans other
  rfl

/-! ## Cutting at zeros -/

theorem splitLines_append_cons {α : Type} {isLineEnd : α → Bool} {line : List α} {sep : α}
    (inside : ∀ x ∈ line, isLineEnd x = false) (closes : isLineEnd sep) (rest : List α) :
    splitLines isLineEnd (line ++ sep :: rest) = line :: splitLines isLineEnd rest := by
  have pieces := List.splitOnP_append_cons_of_forall_mem inside sep closes rest
  have more := List.splitOnP_ne_nil isLineEnd rest
  simp only [splitLines, pieces, List.getLast?_cons_of_ne_nil more, List.dropLast_cons_of_ne_nil more]
  split <;> rfl

theorem not_sep_of_mem_splitOnP {α : Type} {isSep : α → Bool} {input piece : List α}
    (member : piece ∈ input.splitOnP isSep) : ∀ x ∈ piece, isSep x = false := by
  induction input generalizing piece with
  | nil =>
    obtain rfl : piece = [] := by simpa using member
    simp
  | cons y rest ih =>
    obtain ⟨first, others, pieces⟩ := List.exists_cons_of_ne_nil (List.splitOnP_ne_nil isSep rest)
    rw [pieces] at ih
    rw [List.splitOnP_cons_eq_if_modifyHead, pieces] at member
    split at member
    · rcases List.mem_cons.mp member with rfl | member
      · simp
      · exact ih member
    · rename_i inside
      rcases List.mem_cons.mp member with rfl | member
      · exact List.forall_mem_cons.mpr ⟨by simpa using inside, ih List.mem_cons_self⟩
      · exact ih (List.mem_cons_of_mem _ member)

/-- No line has a line end within. -/
theorem not_isLineEnd_of_mem_splitLines {α : Type} {isLineEnd : α → Bool} {input line : List α}
    (member : line ∈ splitLines isLineEnd input) : ∀ x ∈ line, isLineEnd x = false := by
  have piece : line ∈ input.splitOnP isLineEnd := by
    simp only [splitLines] at member
    split at member
    · exact List.dropLast_subset _ member
    · exact member
  exact not_sep_of_mem_splitOnP piece

theorem splitLines_of_forall {α : Type} {isLineEnd : α → Bool} {line : List α}
    (inside : ∀ x ∈ line, isLineEnd x = false) :
    splitLines isLineEnd line = if line.isEmpty then [] else [line] := by
  rw [splitLines, List.splitOnP_eq_singleton inside]
  rfl

section Groups
variable {unclosed : List Int}

theorem groups_append_zero (nonzero : 0 ∉ unclosed) (later : List Int) :
    groups (unclosed ++ 0 :: later) = unclosed :: groups later :=
  splitLines_append_cons (fun _ member =>
    beq_eq_false_iff_ne.mpr (ne_of_mem_of_not_mem member nonzero)) rfl later

/-- No clause has a zero within. -/
theorem zero_not_mem_of_mem_groups {clause tokens : List Int} (member : clause ∈ groups tokens) :
    0 ∉ clause := by
  intro zero
  cases not_isLineEnd_of_mem_splitLines member 0 zero

theorem groups_of_nonzero (nonzero : 0 ∉ unclosed) :
    groups unclosed = if unclosed.isEmpty then [] else [unclosed] :=
  splitLines_of_forall fun _ member => beq_eq_false_iff_ne.mpr (ne_of_mem_of_not_mem member nonzero)

end Groups

/-! ## Integers of lines -/

section Enumerates
variable {line : List Char}

theorem enumerates_nil_iff {tokens : List Int} : Enumerates [] tokens ↔ tokens = [] := by
  constructor
  · rintro ⟨-, numerals⟩
    cases numerals
    rfl
  · rintro rfl
    exact ⟨by simp, .nil⟩

/-- The integers of lines are those of the first line, then those of the others. -/
theorem enumerates_cons_iff {lines : List (List Char)} {tokens : List Int} :
    Enumerates (line :: lines) tokens ↔ line.head? ≠ some 'p' ∧
      ∃ front back, tokens = front ++ back ∧ List.Forall₂ Text.Signed (Text.words line) front ∧
        Enumerates lines back := by
  constructor
  · rintro ⟨noProblem, numerals⟩
    obtain ⟨first, others⟩ := List.forall_mem_cons.mp noProblem
    rw [List.flatMap_cons] at numerals
    obtain ⟨front, back, rfl, here, later⟩ := Text.exists_of_signed_append numerals
    exact ⟨first, front, back, rfl, here, others, later⟩
  · rintro ⟨first, front, back, rfl, numerals, others, more⟩
    exact ⟨List.forall_mem_cons.mpr ⟨first, others⟩, List.rel_append numerals more⟩

/-- The integers of the first line being known, only those of the others are to be found. -/
theorem exists_enumerates_cons_iff {lines : List (List Char)} {front : List Int}
    {Good : List Int → Prop} (data : line.head? ≠ some 'p')
    (numerals : List.Forall₂ Text.Signed (Text.words line) front) :
    (∃ tokens, Enumerates (line :: lines) tokens ∧ Good tokens) ↔
      ∃ back, Enumerates lines back ∧ Good (front ++ back) := by
  constructor
  · rintro ⟨tokens, enumerated, good⟩
    obtain ⟨-, front', back, rfl, numerals', others⟩ := enumerates_cons_iff.mp enumerated
    cases Text.signed_forall₂_unique numerals numerals'
    exact ⟨back, others, good⟩
  · rintro ⟨back, others, good⟩
    exact ⟨front ++ back, enumerates_cons_iff.mpr ⟨data, front, back, rfl, numerals, others⟩, good⟩

end Enumerates

end ClauseLearning.Dimacs
